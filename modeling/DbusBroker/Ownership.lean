import Mathlib.Data.List.Infix
import DbusBroker.CString
import DbusBroker.KeyedStore

/- The ownership policy: may a peer own a bus name?

   `OwnershipPolicy` holds two keyed stores, `names` (exact names) and `prefixes`
   (dotted prefixes), and the `wildcard` decision. `ownershipPolicyCheckAllowed`
   starts from the wildcard, merges in the entry of the name itself, and then, in a
   do-while loop over the dots of the name (`prefixWalk`), the entry of every
   prefix that ends before a dot or at the end. The stores compare a stored name
   with a bounded key `{string, n_string}` (`StringN`), so that the loop looks up
   its prefixes without copying them.

   What is proved:
     1. `ownershipPolicyEntryCompare_agrees` — the comparator orders a bounded key
        `{s, n}` with `n ≤ strlen s` against a stored name exactly as the C string
        `s[0..n)` against that name; insertion (`n = strlen s`) and the prefix
        lookups thus use one order, `CStr`'s.
     2. `prefixWalk_spec` — on a non-empty name the loop ends, reads nothing past the
        name's NUL, and looks up exactly the lengths `n ≥ 1` whose key `N[0..n)` is
        `N` or is followed by a '.' in `N` (`PrefixKey`), in increasing order.

   Correspondence (C ↔ Lean):
     `struct stringn`                      ↔ `StringN`
     `ownership_policy_entry_compare`      ↔ `ownershipPolicyEntryCompare`
     `ownership_policy_entry_new`          ↔ `ownershipPolicyEntryNew` (`policyEntryNew`)
     `ownership_policy_add_entry`          ↔ `ownershipPolicyAddEntry` (`policyAddEntry`)
     `ownership_policy_add_prefix`, `_add_name`, `_set_wildcard`, `_update_decision`,
     `_check_allowed`                      ↔ the functions of the same words
     the do-while loop of `_check_allowed` ↔ `prefixWalk`
-/

namespace DbusBroker

open PolicyDecision CRBTree

/-- An entry of `names` or `prefixes`: its key is the name. -/
abbrev OwnershipPolicyEntry := PolicyEntry CStr

/-- `struct stringn`: a key given as a string and the number of its bytes that
count. -/
structure StringN where
  string : CStr
  nString : Nat

/-- `ownership_policy_entry_compare`: the key `{string, n_string}` against a stored
name. -/
def ownershipPolicyEntryCompare (k : StringN) (entry : OwnershipPolicyEntry) : Int :=
  let r := strncmp k.string.bytes entry.key.bytes k.nString
  if r ≠ 0 then r else if entry.key.bytes.getD k.nString 0 ≠ 0 then -1 else 0

/-- The state of an `OwnershipPolicy`. -/
structure OwnershipPolicy where
  names : CRBTree OwnershipPolicyEntry
  prefixes : CRBTree OwnershipPolicyEntry
  wildcard : PolicyDecision

/-- `ownership_policy_init`: the zeroed policy. -/
def ownershipPolicyInit : OwnershipPolicy := ⟨.nil, .nil, neutral⟩

/-- `ownership_policy_set_wildcard`. -/
def ownershipPolicySetWildcard (policy : OwnershipPolicy) (deny : Bool) (priority : UInt64) :
    Int × OwnershipPolicy :=
  (0, { policy with wildcard := policySetWildcard policy.wildcard deny priority })

/-- `ownership_policy_entry_new`, at the slot of `name`; `alloc` is whether `malloc`
returns memory. -/
def ownershipPolicyEntryNew (policy : CRBTree OwnershipPolicyEntry) (name : CStr) (deny : Bool)
    (priority : UInt64) (alloc : Bool) : Int × CRBTree OwnershipPolicyEntry :=
  policyEntryNew (ownershipPolicyEntryCompare ⟨name, name.length⟩) policy name deny priority alloc

/-- `ownership_policy_add_entry` on the tree `policy`. -/
def ownershipPolicyAddEntry (policy : CRBTree OwnershipPolicyEntry) (name : CStr) (deny : Bool)
    (priority : UInt64) (alloc : Bool) : Int × CRBTree OwnershipPolicyEntry :=
  policyAddEntry (ownershipPolicyEntryCompare ⟨name, name.length⟩) policy deny priority
    (ownershipPolicyEntryNew policy name deny priority alloc)

/-- `ownership_policy_add_prefix`. -/
def ownershipPolicyAddPrefix (policy : OwnershipPolicy) (key : CStr) (deny : Bool)
    (priority : UInt64) (alloc : Bool) : Int × OwnershipPolicy :=
  let (r, prefixes) := ownershipPolicyAddEntry policy.prefixes key deny priority alloc
  (r, { policy with prefixes })

/-- `ownership_policy_add_name`. -/
def ownershipPolicyAddName (policy : OwnershipPolicy) (name : CStr) (deny : Bool)
    (priority : UInt64) (alloc : Bool) : Int × OwnershipPolicy :=
  let (r, names) := ownershipPolicyAddEntry policy.names name deny priority alloc
  (r, { policy with names })

/-- `ownership_policy_update_decision`. -/
def ownershipPolicyUpdateDecision (policy : CRBTree OwnershipPolicyEntry) (stringn : StringN)
    (decision : PolicyDecision) : PolicyDecision :=
  policyUpdateDecision (ownershipPolicyEntryCompare stringn) policy decision

/-- The do-while loop of `ownershipPolicyCheckAllowed`, over the object `mem` that
holds the name and its NUL, from `dot`: `dot = strchrnul(dot + 1, '.')`, a lookup of
the key of length `dot`, and on while `*dot` is not NUL. The lengths looked up, in
order, or `none` if a read leaves the object. -/
def prefixWalk (mem : List UInt8) (dot : Nat) : Option (List Nat) :=
  match _hj : strchrnul mem (dot + 1) '.'.toUInt8 with
  | none => none
  | some j => if mem.getD j 0 = 0 then some [j] else (prefixWalk mem j).map (j :: ·)
termination_by mem.length - dot
decreasing_by have := strchrnul_bound _hj; omega

/-- `ownership_policy_check_allowed`; `none` where the loop reads past the name. -/
def ownershipPolicyCheckAllowed (policy : OwnershipPolicy) (name : CStr) : Option Int :=
  let decision := ownershipPolicyUpdateDecision policy.names ⟨name, name.length⟩ policy.wildcard
  let result (d : PolicyDecision) : Int := if d.deny then POLICY_E_ACCESS_DENIED else 0
  if policy.prefixes.isEmpty then some (result decision)
  else (prefixWalk (name.bytes ++ [0]) 0).map fun ns =>
    result (ns.foldl (fun d n => ownershipPolicyUpdateDecision policy.prefixes ⟨name, n⟩ d) decision)

/-! ## The comparator -/

theorem compare_spec : ∀ (n : Nat) {s e : List UInt8}, (∀ b ∈ s, b ≠ 0) → (∀ b ∈ e, b ≠ 0) →
    n ≤ s.length →
    ((if strncmp s e n ≠ 0 then strncmp s e n else if e.getD n 0 ≠ 0 then -1 else 0) < 0 ↔
      List.Lex (· < ·) ((s.take n).map UInt8.toNat) (e.map UInt8.toNat)) ∧
    ((if strncmp s e n ≠ 0 then strncmp s e n else if e.getD n 0 ≠ 0 then -1 else 0) = 0 ↔
      s.take n = e)
  | 0, s, [], _, _, _ => by simp [strncmp, List.Lex.not_nil_right]
  | 0, s, b :: e, _, he, _ => by
    simp [strncmp, he b (by simp), List.Lex.nil]
  | n + 1, [], _, _, _, hn => by simp at hn
  | n + 1, a :: s, [], hs, _, _ => by
    have := toNat_pos (hs a (by simp))
    simp only [strncmp, List.take_succ_cons, List.map_cons, List.map_nil, List.Lex.not_nil_right,
      iff_false]
    exact ⟨by split <;> omega, by split <;> simp <;> omega⟩
  | n + 1, a :: s, b :: e, hs, he, hn => by
    by_cases hab : a = b
    · subst hab
      have ih := compare_spec n (s := s) (e := e) (fun x hx => hs x (by simp [hx]))
        (fun x hx => he x (by simp [hx])) (by simpa using hn)
      simpa [strncmp, List.Lex.cons_iff] using ih
    · have h0 : (a.toNat : Int) - b.toNat ≠ 0 := by have := toNat_ne hab; omega
      simp only [strncmp, hab, if_false, if_pos h0, List.take_succ_cons, List.map_cons,
        List.cons.injEq, false_and, iff_false]
      exact ⟨sub_neg_iff_lex hab, h0⟩

/-- The comparator orders the bounded key `{s, n}` with `n ≤ strlen s` against a stored
name as `s[0..n)` against that name. -/
theorem ownershipPolicyEntryCompare_agrees {s : CStr} {n : Nat} (hn : n ≤ s.length) :
    Agrees (fun e : OwnershipPolicyEntry => e.key) (ownershipPolicyEntryCompare ⟨s, n⟩)
      (s.take n) := fun e =>
  have h := compare_spec n s.nonzero e.key.nonzero hn
  ⟨h.1, h.2.trans ⟨fun h' => CStr.ext_bytes h', fun h' => congrArg CStr.bytes h'⟩⟩

/-! ## The prefix loop -/

/-- The spec's prefix rule: the key `N[0..n)` is a prefix key of `N` when it is
`N` itself, or `N` goes on with a '.' after it. -/
def PrefixKey (N : CStr) (n : Nat) : Prop :=
  N.take n = N ∨ (N.take n).bytes ++ ['.'.toUInt8] <+: N.bytes

instance (N : CStr) (n : Nat) : Decidable (PrefixKey N n) :=
  inferInstanceAs (Decidable (_ ∨ _))

theorem prefixKey_iff {N : CStr} {n : Nat} (hn : n ≤ N.length) :
    PrefixKey N n ↔ n = N.length ∨ N.bytes.getD n 0 = '.'.toUInt8 := by
  have htake : N.take n = N ↔ n = N.length := by
    constructor
    · intro h
      have := congrArg CStr.length h
      simp only [CStr.length, CStr.bytes_take, List.length_take] at this hn ⊢
      omega
    · rintro rfl; exact N.take_length
  have hpre : (N.take n).bytes ++ ['.'.toUInt8] <+: N.bytes ↔
      n < N.length ∧ N.bytes.getD n 0 = '.'.toUInt8 := by
    simp only [CStr.length] at hn ⊢
    rw [List.prefix_iff_eq_take, CStr.bytes_take, List.length_append, List.length_take,
      min_eq_left hn, List.length_singleton, List.take_succ, List.append_cancel_left_eq,
      List.getD_eq_getElem?_getD]
    rcases Nat.lt_or_ge n N.bytes.length with h | h
    · simp [List.getElem?_eq_getElem h, h, eq_comm]
    · simp [List.getElem?_eq_none h, Nat.not_lt.mpr h]
  rw [PrefixKey, htake, hpre]
  constructor
  · exact Or.imp_right And.right
  · rintro (h | h)
    · exact Or.inl h
    · rcases Nat.lt_or_ge n N.length with h' | h'
      · exact Or.inr ⟨h', h⟩
      · exact Or.inl (by omega)

/-- A cut of `N` at `n`: its end, or a '.'. -/
def isCut (N : List UInt8) (n : Nat) : Bool := decide (n = N.length ∨ N.getD n 0 = '.'.toUInt8)

theorem cuts_split {N : List UInt8} {i j : Nat} (hij : i ≤ j) (hj : j ≤ N.length)
    (hbefore : ∀ k, i ≤ k → k < j → isCut N k = false) (hcut : isCut N j = true) :
    (List.range' i (N.length + 1 - i)).filter (isCut N) =
      j :: (List.range' (j + 1) (N.length + 1 - (j + 1))).filter (isCut N) := by
  have hsplit : List.range' i (N.length + 1 - i) =
      List.range' i (j - i) ++ j :: List.range' (j + 1) (N.length + 1 - (j + 1)) := by
    obtain ⟨m, rfl⟩ : ∃ m, j = i + m := ⟨j - i, by omega⟩
    have h1 : N.length + 1 - i = (N.length + 1 - (i + m + 1) + 1) + m := by omega
    rw [h1, ← List.range'_append, List.range'_succ]
    simp
  rw [hsplit, List.filter_append, List.filter_cons_of_pos hcut]
  rw [List.filter_eq_nil_iff.mpr (fun k hk => by
    rw [List.mem_range'_1] at hk
    simp [hbefore k hk.1 (by omega)])]
  rfl

theorem prefixWalk_cuts {N : List UInt8} (hN : ∀ b ∈ N, b ≠ 0) :
    ∀ dot, dot < N.length → prefixWalk (N ++ [0]) dot =
      some ((List.range' (dot + 1) (N.length + 1 - (dot + 1))).filter (isCut N))
  | dot, hdot => by
    have hc : '.'.toUInt8 ≠ 0 := by decide
    obtain ⟨j, hj, hij, hjN, hjc, hbefore⟩ := strchrnul_spec hc hN (i := dot + 1) hdot
    have hbefore' : ∀ k, dot + 1 ≤ k → k < j → isCut N k = false := fun k hk hkj => by
      simp only [isCut, decide_eq_false_iff_not, not_or]
      exact ⟨by omega, hbefore k hk hkj⟩
    rw [prefixWalk]
    split
    · next h => rw [hj] at h; cases h
    · next j' h =>
      rw [hj] at h; cases h
      by_cases hend : j = N.length
      · subst hend
        have : (N ++ [0]).getD N.length 0 = 0 := by simp
        rw [if_pos this, cuts_split hij le_rfl hbefore' (by simp [isCut])]
        simp [List.range'_eq_nil.mpr (by omega : N.length + 1 - (N.length + 1) = 0)]
      · have hjlt : j < N.length := by omega
        have hdotj : (N ++ [0]).getD j 0 = '.'.toUInt8 := by
          rw [← hjc hjlt]; simp [List.getD_eq_getElem?_getD, List.getElem?_append_left hjlt]
        rw [if_neg (by rw [hdotj]; exact hc), prefixWalk_cuts hN j hjlt,
          cuts_split hij hjN hbefore' (by simp only [isCut, decide_eq_true_eq]; exact Or.inr (hjc hjlt))]
        rfl
termination_by dot => N.length - dot

/-- On a non-empty name the loop ends, reads nothing past the name's NUL, and looks up
exactly the lengths `n ≥ 1` whose key `N[0..n)` is a prefix key of `N`, in increasing
order. -/
theorem prefixWalk_spec {N : CStr} (hN : N.bytes ≠ []) :
    prefixWalk (N.bytes ++ [0]) 0 =
      some ((List.range (N.length + 1)).filter fun n => 0 < n ∧ PrefixKey N n) := by
  have hpos : 0 < N.length := List.length_pos.mpr hN
  rw [prefixWalk_cuts N.nonzero 0 hpos, List.range_eq_range', List.range'_succ,
    List.filter_cons_of_neg (by simp)]
  congr 1
  refine List.filter_congr fun n hn => ?_
  have hlen : N.length = N.bytes.length := rfl
  rw [List.mem_range'_1] at hn
  have h1 : 0 < n := by omega
  simp only [isCut, decide_eq_decide, prefixKey_iff (show n ≤ N.length by omega), hlen]
  exact ⟨fun h => ⟨h1, h⟩, And.right⟩

theorem prefixWalk_a_b : prefixWalk ([97, 46, 98] ++ [0]) 0 = some [1, 3] :=
  (prefixWalk_spec (N := ⟨[97, 46, 98], by decide⟩) (by decide)).trans (by decide)

theorem prefixWalk_skips_length_zero :
    prefixWalk ([] ++ [0]) 0 = none ∧
    prefixWalk ([46, 97] ++ [0]) 0 = some [2] ∧
    (List.range 3).filter (fun n => PrefixKey ⟨[46, 97], by decide⟩ n) = [0, 2] := by
  refine ⟨by rw [prefixWalk]; rfl, ?_, by decide⟩
  rw [prefixWalk]
  rfl

end DbusBroker
