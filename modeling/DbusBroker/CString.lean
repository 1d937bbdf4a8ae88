import Mathlib.Data.List.Lex
import Mathlib.Order.Lattice

/- C strings, and the libc routines `policy.c` calls on them.

   A C string is the list of its bytes before the terminating NUL (`CStr`); the end
   of the list stands for the terminator. `strcmp` and `strncmp` are written as libc
   defines them, returning the difference of the first differing pair of unsigned
   bytes as glibc does; their callers only read the sign. `strchrnul` and `stpcpy`
   work on one object of memory, a `List UInt8`: a scan that runs past the object
   is `none`.

   What is proved:
     1. `strcmp_neg_iff`, `strcmp_eq_zero_iff` — `strcmp` orders C strings exactly
        as the lexicographic order over unsigned bytes, a proper prefix being
        smaller; that order is the `LinearOrder` on `CStr`.
     2. `strchrnul_spec` — on the bytes of a C string and its NUL, a scan starting
        at or before the NUL stops at the first `c` or at the NUL, and never reads
        past the object (`strchrnul_bound` for any object).
     3. `stpcpy_append`, `cstrAt_append` — `stpcpy` at the end of the bytes written
        so far puts the string and its NUL there and keeps the rest of the object,
        and the C string read back at that index is the one copied.
-/

namespace DbusBroker

/-- A C string: the bytes before its terminating NUL. -/
structure CStr where
  bytes : List UInt8
  nonzero : ∀ b ∈ bytes, b ≠ 0
  deriving DecidableEq, Repr

namespace CStr

/-- `strlen`. -/
def length (s : CStr) : Nat := s.bytes.length

/-- The bytes as the unsigned values C compares them by. -/
def key (s : CStr) : List ℕ := s.bytes.map UInt8.toNat

theorem key_injective : Function.Injective key := fun s t h => by
  cases s; cases t
  simpa [key] using List.map_injective_iff.mpr (fun _ _ => UInt8.toNat.inj) h

/-- C strings in `strcmp`'s order: lexicographic over unsigned bytes. -/
instance : LinearOrder CStr := LinearOrder.lift' key key_injective

theorem lt_iff_lex {s t : CStr} : s < t ↔ List.Lex (· < ·) s.key t.key := Iff.rfl

/-- `s[0..n)`. -/
def take (s : CStr) (n : Nat) : CStr :=
  ⟨s.bytes.take n, fun b hb => s.nonzero b (List.mem_of_mem_take hb)⟩

/-- The empty string. -/
def empty : CStr := ⟨[], by simp⟩

/-- `s` followed by `t`. -/
instance : Append CStr :=
  ⟨fun s t => ⟨s.bytes ++ t.bytes, by
    simpa [or_imp, forall_and] using And.intro s.nonzero t.nonzero⟩⟩

@[simp] theorem bytes_take (s : CStr) (n : Nat) : (s.take n).bytes = s.bytes.take n := rfl
@[simp] theorem bytes_append (s t : CStr) : (s ++ t).bytes = s.bytes ++ t.bytes := rfl
@[simp] theorem bytes_empty : empty.bytes = [] := rfl

theorem ext_bytes {s t : CStr} (h : s.bytes = t.bytes) : s = t := by
  cases s; cases t; cases h; rfl

@[simp] theorem append_empty (s : CStr) : s ++ empty = s := ext_bytes (by simp)

theorem take_length (s : CStr) : s.take s.length = s := ext_bytes (by simp [length])

end CStr

/-! ## `strcmp` and `strncmp` -/

/-- `strcmp` on the bytes of two C strings. -/
def strcmp : List UInt8 → List UInt8 → Int
  | [], [] => 0
  | [], b :: _ => -(b.toNat : Int)
  | a :: _, [] => a.toNat
  | a :: s, b :: t => if a = b then strcmp s t else (a.toNat : Int) - b.toNat

/-- `strncmp`: `strcmp` on at most the first `n` bytes. -/
def strncmp : List UInt8 → List UInt8 → Nat → Int
  | _, _, 0 => 0
  | [], [], _ + 1 => 0
  | [], b :: _, _ + 1 => -(b.toNat : Int)
  | a :: _, [], _ + 1 => a.toNat
  | a :: s, b :: t, n + 1 => if a = b then strncmp s t n else (a.toNat : Int) - b.toNat

theorem toNat_pos {b : UInt8} (h : b ≠ 0) : 0 < b.toNat :=
  Nat.pos_of_ne_zero fun h' => h (UInt8.toNat.inj h')

theorem toNat_ne {a b : UInt8} (h : a ≠ b) : a.toNat ≠ b.toNat := fun h' => h (UInt8.toNat.inj h')

theorem lex_cons_ne {a b : ℕ} {l m : List ℕ} (h : a ≠ b) :
    List.Lex (· < ·) (a :: l) (b :: m) ↔ a < b := by
  constructor
  · rintro (_ | ⟨h'⟩ | ⟨h'⟩)
    · exact absurd rfl h
    · exact h'
  · exact List.Lex.rel

theorem sub_neg_iff_lex {a b : UInt8} {l m : List ℕ} (h : a ≠ b) :
    (a.toNat : Int) - b.toNat < 0 ↔ List.Lex (· < ·) (a.toNat :: l) (b.toNat :: m) := by
  rw [lex_cons_ne (toNat_ne h)]; omega

theorem strcmp_spec : ∀ {s t : List UInt8}, (∀ b ∈ s, b ≠ 0) → (∀ b ∈ t, b ≠ 0) →
    (strcmp s t < 0 ↔ List.Lex (· < ·) (s.map UInt8.toNat) (t.map UInt8.toNat)) ∧
      (strcmp s t = 0 ↔ s = t)
  | [], [], _, _ => by simp [strcmp, List.Lex.not_nil_right]
  | [], b :: t, _, ht => by
    have := toNat_pos (ht b (by simp))
    simp only [strcmp, List.map_nil, List.map_cons, List.Lex.nil, iff_true]
    exact ⟨by omega, by simp; omega⟩
  | a :: s, [], hs, _ => by
    have := toNat_pos (hs a (by simp))
    simp only [strcmp, List.map_nil, List.map_cons, List.Lex.not_nil_right, iff_false]
    exact ⟨by omega, by simp; omega⟩
  | a :: s, b :: t, hs, ht => by
    by_cases hab : a = b
    · subst hab
      have ih := strcmp_spec (s := s) (t := t) (fun x hx => hs x (by simp [hx]))
        (fun x hx => ht x (by simp [hx]))
      simpa [strcmp, List.Lex.cons_iff] using ih
    · simp only [strcmp, hab, if_false, List.map_cons, List.cons.injEq, false_and, iff_false]
      exact ⟨sub_neg_iff_lex hab, by have := toNat_ne hab; omega⟩

theorem strcmp_neg_iff (s t : CStr) : strcmp s.bytes t.bytes < 0 ↔ s < t :=
  (strcmp_spec s.nonzero t.nonzero).1

theorem strcmp_eq_zero_iff (s t : CStr) : strcmp s.bytes t.bytes = 0 ↔ s = t :=
  (strcmp_spec s.nonzero t.nonzero).2.trans ⟨CStr.ext_bytes, fun h => h ▸ rfl⟩

/-! ## `strchrnul` -/

/-- `strchrnul(p, c)` with `p` at index `i` of the object `mem`: the index of the
first byte from `i` on that is `c` or NUL, or `none` if the scan leaves the object
before finding one. -/
def strchrnul : List UInt8 → Nat → UInt8 → Option Nat
  | [], _, _ => none
  | b :: mem, 0, c => if b = c ∨ b = 0 then some 0 else (strchrnul mem 0 c).map (· + 1)
  | _ :: mem, i + 1, c => (strchrnul mem i c).map (· + 1)

theorem strchrnul_bound : ∀ {mem : List UInt8} {i j : Nat} {c : UInt8},
    strchrnul mem i c = some j → i ≤ j ∧ j < mem.length
  | [], _, _, _, h => by simp [strchrnul] at h
  | b :: mem, 0, j, c, h => by
    simp only [strchrnul] at h
    split at h
    · cases h; simp
    · obtain ⟨j', h', rfl⟩ := Option.map_eq_some'.mp h
      have := (strchrnul_bound h').2
      simp; omega
  | _ :: mem, i + 1, j, c, h => by
    obtain ⟨j', h', rfl⟩ := Option.map_eq_some'.mp h
    have := strchrnul_bound h'
    simp; omega

/-- On a C string `N` followed by its NUL, a scan from `i ≤ strlen N` for a byte
`c ≠ 0` stops at the first `c` from `i` on, or at the NUL. -/
theorem strchrnul_spec {c : UInt8} (hc : c ≠ 0) : ∀ {N : List UInt8} {i : Nat},
    (∀ b ∈ N, b ≠ 0) → i ≤ N.length → ∃ j, strchrnul (N ++ [0]) i c = some j ∧
      i ≤ j ∧ j ≤ N.length ∧ (j < N.length → N.getD j 0 = c) ∧
      ∀ k, i ≤ k → k < j → N.getD k 0 ≠ c
  | [], i, _, hi => ⟨0, by simp [Nat.le_zero.mp hi, strchrnul], by simpa using hi,
      le_rfl, by simp, fun k hk hk' => by omega⟩
  | b :: N, 0, hN, _ => by
    by_cases hb : b = c
    · exact ⟨0, by simp [strchrnul, hb], le_rfl, by simp, by simp [hb], fun k _ hk => by omega⟩
    · obtain ⟨j, hj, -, hjN, hjc, hbefore⟩ :=
        strchrnul_spec hc (fun x hx => hN x (by simp [hx])) (Nat.zero_le N.length)
      refine ⟨j + 1, ?_, by omega, by simpa using hjN, fun h => by simpa using hjc (by simpa using h), ?_⟩
      · simp [strchrnul, hb, hN b (by simp), hj]
      · rintro (_ | k) - hk
        · simpa using hb
        · simpa using hbefore k (Nat.zero_le k) (by omega)
  | b :: N, i + 1, hN, hi => by
    obtain ⟨j, hj, hij, hjN, hjc, hbefore⟩ :=
      strchrnul_spec hc (N := N) (fun x hx => hN x (by simp [hx])) (by simpa using hi)
    refine ⟨j + 1, by simp [strchrnul, hj], by omega, by simpa using hjN,
      fun h => by simpa using hjc (by simpa using h), ?_⟩
    rintro (_ | k) hk hk'
    · omega
    · simpa using hbefore k (by omega) (by omega)

/-! ## `stpcpy` -/

/-- `stpcpy(buf + dst, s)` on the object `buf`: the bytes of `s` and its NUL written
from index `dst` on, and the index of that NUL, which is what `stpcpy` returns. -/
def stpcpy (buf : List UInt8) (dst : Nat) (s : CStr) : List UInt8 × Nat :=
  (buf.take dst ++ s.bytes ++ [0] ++ buf.drop (dst + s.length + 1), dst + s.length)

/-- The C string that starts at index `i` of the object `buf`. -/
def cstrAt (buf : List UInt8) (i : Nat) : CStr :=
  ⟨(buf.drop i).takeWhile (· ≠ 0), fun b hb => by simpa using List.mem_takeWhile_imp hb⟩

theorem stpcpy_append (pre rest : List UInt8) (s : CStr) :
    stpcpy (pre ++ rest) pre.length s =
      (pre ++ (s.bytes ++ [0]) ++ rest.drop (s.length + 1), pre.length + s.length) := by
  rw [stpcpy, List.take_left, Nat.add_assoc, List.drop_append]
  simp

theorem cstrAt_append (pre : List UInt8) (s : CStr) (rest : List UInt8) :
    cstrAt (pre ++ (s.bytes ++ 0 :: rest)) pre.length = s := by
  apply CStr.ext_bytes
  simp only [cstrAt, List.drop_left]
  rw [List.takeWhile_append_of_pos (by simpa using s.nonzero)]
  simp

end DbusBroker
