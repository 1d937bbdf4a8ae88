import Mathlib.Data.List.Nodup

/- Decisions, and how the policies merge them.

   `PolicyDecision` is the `(deny, priority)` pair every rule and every store of
   `policy.c` carries. The file merges decisions in two ways: every wildcard setter
   and every lookup (`*_update_decision`) lets the candidate replace the current
   decision unless the candidate's priority is lower (`PolicyDecision.update`),
   while `*_policy_add_entry` lets a rule replace an entry already in its tree only
   at a strictly higher priority (`PolicyDecision.updateStrict`).

   `Decides dec calls M D` is what a query should compute, stated over the calls
   that built the store: `D` is the decision of a call `M` selects that no other
   selected call outranks, and the neutral decision when `M` selects none. It is the
   abstract side of every check theorem of the policies.

   What is proved:
     1. `wins_foldl_update`, `wins_foldl_updateStrict` — a fold of either merge ends
        on one of the decisions folded, of the highest priority among them; for
        `update`, on the last of them (`foldl_update_last`, `LastWins`).
     2. `Decides.deny_iff` — when the calls' priorities are pairwise distinct, a
        query that `Decides` denies exactly when the highest-priority selected call
        is a deny.
     3. `Decides.unique` — with distinct priorities one decision at most `Decides`,
        and `Decides` reads the calls only as a set (`Decides.perm`): the order of
        the calls does not change what a query answers.
     4. `runCalls_induction` — what every call that returns 0 keeps holds after any
        run of calls that ends without an error; every policy's runs are `runCalls`.
        For a caller that goes on past failed calls (`runAllCalls`): what the
        successful calls keep and the failed ones do not disturb holds after any run
        of calls that keep it (`runAllCalls_induction`), and when failed calls
        change nothing, the run ends where the run of its successful calls does
        (`runCalls_runAllCalls`).
     5. `Raises.foldl_update` — one more decision added to those a check merges, in
        any places or in place of decisions of no higher priority, leaves the merge
        where it was or makes it that decision.
-/

namespace DbusBroker

/-- Modelled from the spec: `POLICY_E_ACCESS_DENIED`, what the checks return for a
denied request. It is declared in `policy.h`, which is not part of the source; the
spec lists it among the error codes, and the checks need of it only that it is not
0, the result of an allowed request. -/
def POLICY_E_ACCESS_DENIED : Int := 1

/-- `ENOMEM` of Linux's `errno.h`; a failed allocation returns `-ENOMEM`. -/
def ENOMEM : Int := 12

/-- A rule's or a store's decision. -/
structure PolicyDecision where
  deny : Bool
  priority : UInt64
  deriving DecidableEq, Repr

theorem prio_lt_iff {a b : UInt64} : a < b ↔ a.toNat < b.toNat := Iff.rfl
theorem prio_le_iff {a b : UInt64} : a ≤ b ↔ a.toNat ≤ b.toNat := Iff.rfl
theorem prio_eq_iff {a b : UInt64} : a = b ↔ a.toNat = b.toNat :=
  ⟨congrArg _, UInt64.toNat.inj⟩
theorem prio_le_of_lt {a b : UInt64} (h : a < b) : a ≤ b :=
  prio_le_iff.mpr (Nat.le_of_lt (prio_lt_iff.mp h))

namespace PolicyDecision

/-- The decision of a zeroed store (`{}` in the source): allow, at priority 0. -/
def neutral : PolicyDecision := ⟨false, 0⟩

/-- The merge of `*_set_*wildcard` and `*_update_decision`: the candidate replaces
the current decision unless its priority is lower. -/
def update (current candidate : PolicyDecision) : PolicyDecision :=
  if candidate.priority < current.priority then current else candidate

/-- The merge of `*_policy_add_entry` into an entry already in its tree: the
candidate replaces it only at a strictly higher priority. -/
def updateStrict (current candidate : PolicyDecision) : PolicyDecision :=
  if current.priority < candidate.priority then candidate else current

@[simp] theorem neutral_deny : neutral.deny = false := rfl
@[simp] theorem neutral_priority : neutral.priority = 0 := rfl

@[simp] theorem neutral_update (d : PolicyDecision) : neutral.update d = d := by
  simp [update, prio_lt_iff]

theorem update_mem (d x : PolicyDecision) : d.update x = d ∨ d.update x = x := by
  unfold update; split <;> simp

theorem le_update_left (d x : PolicyDecision) : d.priority ≤ (d.update x).priority := by
  unfold update; split
  · exact UInt64.le_refl _
  · next h => exact UInt64.not_lt.mp h

theorem le_update_right (d x : PolicyDecision) : x.priority ≤ (d.update x).priority := by
  unfold update; split
  · next h => exact prio_le_of_lt h
  · exact UInt64.le_refl _

theorem updateStrict_mem (d x : PolicyDecision) :
    d.updateStrict x = d ∨ d.updateStrict x = x := by
  unfold updateStrict; split <;> simp

theorem le_updateStrict_left (d x : PolicyDecision) :
    d.priority ≤ (d.updateStrict x).priority := by
  unfold updateStrict; split
  · next h => exact prio_le_of_lt h
  · exact UInt64.le_refl _

theorem le_updateStrict_right (d x : PolicyDecision) :
    x.priority ≤ (d.updateStrict x).priority := by
  unfold updateStrict; split
  · exact UInt64.le_refl _
  · next h => exact UInt64.not_lt.mp h

end PolicyDecision

open PolicyDecision

/-- The body of `ownership_policy_set_wildcard`, `connection_policy_set_uid_wildcard`
and `connection_policy_set_gid_wildcard`, on the wildcard decision `w`. -/
def policySetWildcard (w : PolicyDecision) (deny : Bool) (priority : UInt64) : PolicyDecision :=
  if w.priority > priority then w else ⟨deny, priority⟩

theorem policySetWildcard_eq (w : PolicyDecision) (deny : Bool) (priority : UInt64) :
    policySetWildcard w deny priority = w.update ⟨deny, priority⟩ := rfl

/-! ## Folds of the merges -/

/-- `d` is one of `ds`, and none of `ds` has a higher priority. -/
def Wins (d : PolicyDecision) (ds : List PolicyDecision) : Prop :=
  d ∈ ds ∧ ∀ x ∈ ds, x.priority ≤ d.priority

theorem wins_foldl {m : PolicyDecision → PolicyDecision → PolicyDecision}
    (hmem : ∀ d x, m d x = d ∨ m d x = x) (hl : ∀ d x, d.priority ≤ (m d x).priority)
    (hr : ∀ d x, x.priority ≤ (m d x).priority) :
    ∀ (ds : List PolicyDecision) (d : PolicyDecision), Wins (ds.foldl m d) (d :: ds)
  | [], d => ⟨by simp, by simp [UInt64.le_refl]⟩
  | x :: ds, d => by
    obtain ⟨hmem', hle⟩ := wins_foldl hmem hl hr ds (m d x)
    refine ⟨?_, ?_⟩
    · show ds.foldl m (m d x) ∈ d :: x :: ds
      rcases List.mem_cons.mp hmem' with h | h
      · rw [h]; rcases hmem d x with h' | h' <;> rw [h'] <;> simp
      · exact List.mem_cons_of_mem _ (List.mem_cons_of_mem _ h)
    · intro y hy
      have := hle (m d x) (List.mem_cons_self _ _)
      rcases List.mem_cons.mp hy with rfl | hy
      · exact UInt64.le_trans (hl y x) this
      · rcases List.mem_cons.mp hy with rfl | hy
        · exact UInt64.le_trans (hr d y) this
        · exact hle y (List.mem_cons_of_mem _ hy)

theorem wins_foldl_update (ds : List PolicyDecision) (d : PolicyDecision) :
    Wins (ds.foldl update d) (d :: ds) :=
  wins_foldl update_mem le_update_left le_update_right ds d

theorem wins_foldl_updateStrict (ds : List PolicyDecision) (d : PolicyDecision) :
    Wins (ds.foldl updateStrict d) (d :: ds) :=
  wins_foldl updateStrict_mem le_updateStrict_left le_updateStrict_right ds d

theorem wins_foldl_update_neutral {ds : List PolicyDecision} (h : ds ≠ []) :
    Wins (ds.foldl update neutral) ds := by
  obtain ⟨d, ds, rfl⟩ := List.exists_cons_of_ne_nil h
  rw [List.foldl_cons, neutral_update]
  exact wins_foldl_update ds d

theorem le_foldl_update_neutral {ds : List PolicyDecision} {x : PolicyDecision} (hx : x ∈ ds) :
    x.priority ≤ (ds.foldl update neutral).priority :=
  (wins_foldl_update_neutral (List.ne_nil_of_mem hx)).2 x hx

/-- `D` is the decision a fold of `update` from the neutral decision picks from `ds`:
the last of those of the highest priority, or the neutral decision when there are
none. -/
def LastWins (ds : List PolicyDecision) (D : PolicyDecision) : Prop :=
  (ds = [] → D = neutral) ∧ (ds ≠ [] → ∃ pre post, ds = pre ++ D :: post ∧
    (∀ x ∈ pre, x.priority ≤ D.priority) ∧ ∀ x ∈ post, x.priority < D.priority)

/-- A fold of `update` ends on the last of the decisions folded, its start included, of
the highest priority. -/
theorem foldl_update_last (d : PolicyDecision) (ds : List PolicyDecision) :
    ∃ pre post, d :: ds = pre ++ ds.foldl update d :: post ∧
      (∀ x ∈ pre, x.priority ≤ (ds.foldl update d).priority) ∧
      ∀ x ∈ post, x.priority < (ds.foldl update d).priority := by
  induction ds using List.reverseRecOn with
  | nil => exact ⟨[], [], rfl, by simp, by simp⟩
  | append_singleton ds x ih =>
    obtain ⟨pre, post, hsplit, hpre, hpost⟩ := ih
    rw [List.foldl_append, List.foldl_cons, List.foldl_nil]
    by_cases hx : x.priority < (ds.foldl update d).priority
    · -- `x` is below the decision so far, which stays
      rw [show (ds.foldl update d).update x = ds.foldl update d from if_pos hx]
      refine ⟨pre, post ++ [x], by rw [← List.cons_append, hsplit]; simp, hpre, ?_⟩
      simpa [or_imp, forall_and] using ⟨hpost, hx⟩
    · -- `x` ties with it or outranks it, and takes its place
      rw [show (ds.foldl update d).update x = x from if_neg hx]
      exact ⟨d :: ds, [], by simp, fun y hy =>
        UInt64.le_trans ((wins_foldl_update ds d).2 y hy) (UInt64.not_lt.mp hx), by simp⟩

theorem lastWins_foldl_update (ds : List PolicyDecision) : LastWins ds (ds.foldl update neutral) := by
  refine ⟨fun h => by rw [h]; rfl, fun h => ?_⟩
  obtain ⟨g, gs, rfl⟩ := List.exists_cons_of_ne_nil h
  rw [List.foldl_cons, neutral_update]
  exact foldl_update_last g gs

/-! ## One more decision -/

theorem filterMap_snoc {ι β : Type} (f : ι → Option β) (calls : List ι) (c : ι) :
    (calls ++ [c]).filterMap f = calls.filterMap f ++ (f c).toList := by
  cases h : f c <;> simp [h]

/-- `l'` is `l` with the decision `x` added: inserted at any places, or put in place of
decisions of no higher priority. What one more rule does to the decisions a check
merges. -/
inductive Raises (x : PolicyDecision) : List PolicyDecision → List PolicyDecision → Prop
  | nil : Raises x [] []
  | keep (a : PolicyDecision) {l l' : List PolicyDecision} : Raises x l l' → Raises x (a :: l) (a :: l')
  | insert {l l' : List PolicyDecision} : Raises x l l' → Raises x l (x :: l')
  | replace {a : PolicyDecision} {l l' : List PolicyDecision} :
      a.priority ≤ x.priority → Raises x l l' → Raises x (a :: l) (x :: l')

namespace Raises
variable {x : PolicyDecision}

theorem refl : ∀ l : List PolicyDecision, Raises x l l
  | [] => nil
  | a :: l => keep a (refl l)

theorem append {l₁ l₁' l₂ l₂' : List PolicyDecision} (h₁ : Raises x l₁ l₁') (h₂ : Raises x l₂ l₂') :
    Raises x (l₁ ++ l₂) (l₁' ++ l₂') := by
  induction h₁ with
  | nil => exact h₂
  | keep a _ ih => exact keep a ih
  | insert _ ih => exact insert ih
  | replace ha _ ih => exact replace ha ih

theorem snoc_ite (l : List PolicyDecision) (b : Bool) :
    Raises x l (l ++ if b then [x] else []) := by
  simpa using append (refl l) (show Raises x [] (if b then [x] else []) by
    cases b; exacts [nil, insert nil])

theorem flatMap {ι : Type} {ns : List ι} {f g : ι → List PolicyDecision}
    (h : ∀ n ∈ ns, Raises x (f n) (g n)) : Raises x (ns.flatMap f) (ns.flatMap g) := by
  induction ns with
  | nil => exact nil
  | cons n ns ih =>
    simp only [List.flatMap_cons]
    exact append (h n (List.mem_cons_self n ns)) (ih fun m hm => h m (List.mem_cons_of_mem n hm))

/-- Two starting points of a merge related as one more decision leaves them: the same,
or `x` where the other is of no higher priority. -/
def Start (x u v : PolicyDecision) : Prop := v = u ∨ v = x ∧ u.priority ≤ x.priority

theorem Start.update {u v : PolicyDecision} (h : Start x u v) (a : PolicyDecision) :
    Start x (u.update a) (v.update a) := by
  rcases h with rfl | ⟨hv, hux⟩
  · exact Or.inl rfl
  rw [hv]
  by_cases ha : a.priority < x.priority
  · refine Or.inr ⟨if_pos ha, ?_⟩
    rcases update_mem u a with h | h <;> rw [h]
    exacts [hux, prio_le_of_lt ha]
  · have hua : ¬ a.priority < u.priority := fun h' =>
      ha (prio_lt_iff.mpr (Nat.lt_of_lt_of_le (prio_lt_iff.mp h') (prio_le_iff.mp hux)))
    exact Or.inl (by simp only [PolicyDecision.update, if_neg ha, if_neg hua])

theorem Start.priority_le {u v : PolicyDecision} (h : Start x u v) : u.priority ≤ v.priority := by
  rcases h with rfl | ⟨hv, hux⟩
  · exact UInt64.le_refl _
  · rw [hv]; exact hux

/-- A fold of `update` over the raised list ends where the fold over the list does, or on
`x`. -/
theorem foldl_update {l l' : List PolicyDecision} (h : Raises x l l') :
    ∀ {u v : PolicyDecision}, Start x u v → l'.foldl update v = l.foldl update u ∨
      l'.foldl update v = x := by
  induction h with
  | nil =>
    rintro u v (rfl | ⟨rfl, -⟩)
    exacts [Or.inl rfl, Or.inr rfl]
  | keep a _ ih => exact fun huv => ih (huv.update a)
  | insert _ ih =>
    intro u v huv
    apply ih
    by_cases hx : x.priority < v.priority
    · rw [show v.update x = v from if_pos hx]; exact huv
    · exact Or.inr ⟨if_neg hx, UInt64.le_trans huv.priority_le (UInt64.not_lt.mp hx)⟩
  | @replace a l l' ha _ ih =>
    intro u v huv
    apply ih
    by_cases hx : x.priority < v.priority
    · -- `x` loses to `v`, which is then `u`, and so does `a`
      rcases huv with rfl | ⟨hv, -⟩
      · have hau : a.priority < v.priority :=
          prio_lt_iff.mpr (Nat.lt_of_le_of_lt (prio_le_iff.mp ha) (prio_lt_iff.mp hx))
        exact Or.inl (by simp only [PolicyDecision.update, if_pos hx, if_pos hau])
      · rw [hv] at hx; exact absurd hx (UInt64.lt_irrefl _)
    · refine Or.inr ⟨if_neg hx, ?_⟩
      rcases update_mem u a with h | h <;> rw [h]
      exacts [UInt64.le_trans huv.priority_le (UInt64.not_lt.mp hx), ha]

theorem foldl_update_neutral {l l' : List PolicyDecision} (h : Raises x l l') :
    l'.foldl update neutral = l.foldl update neutral ∨ l'.foldl update neutral = x :=
  h.foldl_update (Or.inl rfl)

/-- An entry's decision `o'` after one more rule `x` under its key, as `o` was
before: the same, or `x`, in place of nothing or of a decision of no higher
priority. -/
def OptRaises (x : PolicyDecision) (o o' : Option PolicyDecision) : Prop :=
  o' = o ∨ o' = some x ∧ ∀ a ∈ o, a.priority ≤ x.priority

theorem filterMap_cons {o o' : Option PolicyDecision} {os os' : List (Option PolicyDecision)}
    (h : OptRaises x o o') (hs : Raises x (os.filterMap id) (os'.filterMap id)) :
    Raises x ((o :: os).filterMap id) ((o' :: os').filterMap id) := by
  rcases h with rfl | ⟨rfl, ha⟩
  · cases o'
    exacts [hs, keep _ hs]
  · cases o with
    | none => exact insert hs
    | some a => exact replace (ha a rfl) hs

theorem toList {o o' : Option PolicyDecision} (h : OptRaises x o o') : Raises x o.toList o'.toList := by
  rcases h with rfl | ⟨rfl, ha⟩
  · exact refl _
  · cases o with
    | none => exact insert nil
    | some a => exact replace (ha a rfl) nil

theorem update_cons (a : PolicyDecision) (l : List PolicyDecision) :
    Raises x (a :: l) (a.update x :: l) := by
  by_cases hx : x.priority < a.priority
  · rw [show a.update x = a from if_pos hx]; exact refl _
  · rw [show a.update x = x from if_neg hx]; exact replace (UInt64.not_lt.mp hx) (refl l)

theorem filterMap_map {α : Type} {f g : α → Option PolicyDecision} :
    ∀ {l : List α}, (∀ a ∈ l, OptRaises x (f a) (g a)) →
      Raises x ((l.map f).filterMap id) ((l.map g).filterMap id)
  | [], _ => nil
  | a :: l, h => filterMap_cons (h a (List.mem_cons_self a l))
      (filterMap_map fun b hb => h b (List.mem_cons_of_mem a hb))

end Raises

theorem foldl_elim_update (os : List (Option PolicyDecision)) (d : PolicyDecision) :
    os.foldl (fun d o => o.elim d d.update) d = (os.filterMap id).foldl update d := by
  induction os generalizing d with
  | nil => rfl
  | cons o os ih => cases o <;> simp [ih]

/-! ## The abstract decision -/

section Decides
variable {ι : Type} (dec : ι → PolicyDecision)

/-- What a query computes, stated over the calls that built the store: `D` is the
decision of a call `M` selects that no selected call outranks, and the neutral
decision when `M` selects none. -/
structure Decides (calls : List ι) (M : ι → Prop) (D : PolicyDecision) : Prop where
  mem : (∃ c ∈ calls, M c) → ∃ c ∈ calls, M c ∧ dec c = D
  le : ∀ c ∈ calls, M c → (dec c).priority ≤ D.priority
  neutral : (∀ c ∈ calls, ¬ M c) → D = neutral

variable {dec} {calls : List ι} {M : ι → Prop} {D : PolicyDecision}

/-- With pairwise distinct priorities, a decision that `Decides` is a deny exactly when
the selected call no other selected call outranks is a deny. -/
theorem Decides.deny_iff (h : Decides dec calls M D)
    (hp : (calls.map fun c => (dec c).priority).Nodup) :
    D.deny = true ↔ ∃ c ∈ calls, M c ∧ (dec c).deny = true ∧
      ∀ c' ∈ calls, M c' → (dec c').priority ≤ (dec c).priority := by
  constructor
  · intro hd
    have hsel : ∃ c ∈ calls, M c := by
      by_contra hn
      push_neg at hn
      simp [h.neutral hn] at hd
    obtain ⟨c, hc, hM, rfl⟩ := h.mem hsel
    exact ⟨c, hc, hM, hd, fun c' hc' hM' => h.le c' hc' hM'⟩
  · rintro ⟨c, hc, hM, hd, hmax⟩
    obtain ⟨c', hc', hM', rfl⟩ := h.mem ⟨c, hc, hM⟩
    have h1 := h.le c hc hM
    have h2 := hmax c' hc' hM'
    rw [prio_le_iff] at h1 h2
    have : c = c' := List.inj_on_of_nodup_map hp hc hc' (prio_eq_iff.mpr (by omega))
    exact this ▸ hd

theorem decides_foldl_update {G : List PolicyDecision}
    (hsound : ∀ g ∈ G, ∃ c ∈ calls, M c ∧ dec c = g)
    (hcomplete : ∀ c ∈ calls, M c → ∃ g ∈ G, (dec c).priority ≤ g.priority) :
    Decides dec calls M (G.foldl update neutral) := by
  refine ⟨fun ⟨c, hc, hM⟩ => ?_, fun c hc hM => ?_, fun hn => ?_⟩
  · obtain ⟨g, hg, -⟩ := hcomplete c hc hM
    obtain ⟨g0, gs, rfl⟩ := List.exists_cons_of_ne_nil (List.ne_nil_of_mem hg)
    rw [List.foldl_cons, neutral_update]
    exact hsound _ (wins_foldl_update gs g0).1
  · obtain ⟨g, hg, hle⟩ := hcomplete c hc hM
    obtain ⟨g0, gs, rfl⟩ := List.exists_cons_of_ne_nil (List.ne_nil_of_mem hg)
    rw [List.foldl_cons, neutral_update]
    exact UInt64.le_trans hle ((wins_foldl_update gs g0).2 g hg)
  · cases G with
    | nil => rfl
    | cons g gs =>
      obtain ⟨c, hc, hM, -⟩ := hsound g (List.mem_cons_self g gs)
      exact absurd hM (hn c hc)

theorem Decides.perm {calls' : List ι} (h : Decides dec calls M D) (hp : calls.Perm calls') :
    Decides dec calls' M D :=
  ⟨fun hs => by simpa only [hp.mem_iff] using h.mem (by simpa only [hp.mem_iff] using hs),
    fun c hc => h.le c (hp.mem_iff.mpr hc), fun hn => h.neutral fun c hc => hn c (hp.mem_iff.mp hc)⟩

/-- With pairwise distinct priorities, one decision at most `Decides`: the calls fix what
every query answers. -/
theorem Decides.unique {D' : PolicyDecision} (h : Decides dec calls M D)
    (h' : Decides dec calls M D') (hp : (calls.map fun c => (dec c).priority).Nodup) : D = D' := by
  by_cases hsel : ∃ c ∈ calls, M c
  · obtain ⟨c, hc, hM, rfl⟩ := h.mem hsel
    obtain ⟨c', hc', hM', rfl⟩ := h'.mem hsel
    have h1 := h.le c' hc' hM'
    have h2 := h'.le c hc hM
    rw [prio_le_iff] at h1 h2
    rw [List.inj_on_of_nodup_map hp hc hc' (prio_eq_iff.mpr (by omega))]
  · push_neg at hsel
    rw [h.neutral hsel, h'.neutral hsel]

theorem Decides.ite_deny [DecidablePred M] {β : Type} (h : Decides dec calls M D)
    (hp : (calls.map fun c => (dec c).priority).Nodup) (a b : β) :
    (if D.deny then a else b) = if ∃ c ∈ calls, M c ∧ (dec c).deny = true ∧
      ∀ c' ∈ calls, M c' → (dec c').priority ≤ (dec c).priority then a else b := by
  by_cases hd : D.deny = true
  · rw [if_pos hd, if_pos ((h.deny_iff hp).mp hd)]
  · rw [if_neg hd, if_neg (fun h' => hd ((h.deny_iff hp).mpr h'))]

end Decides

/-! ## Runs of calls -/

/-- The calls in order from `state`, stopping at the first that returns an error;
`apply` is what one call does to the state and returns. -/
def runCalls {ι σ : Type} (apply : ι → σ → Int × σ) : List ι → σ → Except Int σ
  | [], state => .ok state
  | c :: cs, state =>
    let (r, state') := apply c state
    if r = 0 then runCalls apply cs state' else .error r

/-- A property of a state and of the calls that built it, kept by every call that returns
0, holds after every run that ends without an error. -/
theorem runCalls_induction {ι σ : Type} {apply : ι → σ → Int × σ} (inv : σ → List ι → Prop)
    (step : ∀ {s s' : σ} {cs : List ι} {c : ι}, inv s cs → apply c s = (0, s') →
      inv s' (cs ++ [c])) :
    ∀ {calls cs : List ι} {s s' : σ}, inv s cs → runCalls apply calls s = .ok s' →
      inv s' (cs ++ calls)
  | [], _, _, _, h, hrun => by cases hrun; simpa using h
  | c :: calls, cs, s, s', h, hrun => by
    simp only [runCalls] at hrun
    rcases happ : apply c s with ⟨r, q⟩
    rw [happ] at hrun
    split at hrun
    · next hr =>
      subst hr
      simpa using runCalls_induction inv step (step h happ) hrun
    · cases hrun

/-- The calls in order from `state`, each made whatever the calls before it returned,
as by a caller that goes on after a failed call: the last state, and the calls that
returned 0, in order. -/
def runAllCalls {ι σ : Type} (apply : ι → σ → Int × σ) : List ι → σ → σ × List ι
  | [], state => (state, [])
  | c :: cs, state =>
    let step := apply c state
    let rest := runAllCalls apply cs step.2
    (rest.1, if step.1 = 0 then c :: rest.2 else rest.2)

section RunAll
variable {ι σ : Type} {apply : ι → σ → Int × σ}

/-- A property of a state and of the calls that returned 0, kept by every call of `good`
that returns 0 (with the call) and by every one that fails (without it), holds after every
run of such calls, the failed calls left out. -/
theorem runAllCalls_induction (good : ι → Prop) (inv : σ → List ι → Prop)
    (ok : ∀ {s s' : σ} {cs : List ι} {c : ι}, good c → inv s cs → apply c s = (0, s') →
      inv s' (cs ++ [c]))
    (fail : ∀ {s s' : σ} {cs : List ι} {c : ι} {r : Int}, good c → inv s cs → apply c s = (r, s') →
      r ≠ 0 → inv s' cs) :
    ∀ {calls cs : List ι} {s : σ}, (∀ c ∈ calls, good c) → inv s cs →
      inv (runAllCalls apply calls s).1 (cs ++ (runAllCalls apply calls s).2)
  | [], _, _, _, h => by simpa [runAllCalls] using h
  | c :: calls, cs, s, hgood, h => by
    have hc := hgood c (List.mem_cons_self c calls)
    have hgood' := fun c' hc' => hgood c' (List.mem_cons_of_mem c hc')
    rcases happ : apply c s with ⟨r, q⟩
    by_cases hr : r = 0
    · subst hr
      simpa [runAllCalls, happ] using runAllCalls_induction good inv ok fail hgood' (ok hc h happ)
    · simpa [runAllCalls, happ, hr] using
        runAllCalls_induction good inv ok fail hgood' (fail hc h happ hr)

/-- When a call that fails leaves the state as it was, a run that goes on past failures
ends where the run of its successful calls alone does. -/
theorem runCalls_runAllCalls (hfail : ∀ {c : ι} {s s' : σ} {r : Int}, apply c s = (r, s') → r ≠ 0 → s' = s) :
    ∀ (calls : List ι) (s : σ),
      runCalls apply (runAllCalls apply calls s).2 s = .ok (runAllCalls apply calls s).1
  | [], _ => rfl
  | c :: calls, s => by
    rcases happ : apply c s with ⟨r, q⟩
    by_cases hr : r = 0
    · subst hr
      simpa [runAllCalls, runCalls, happ] using runCalls_runAllCalls hfail calls q
    · obtain rfl := hfail happ hr
      simpa [runAllCalls, happ, hr] using runCalls_runAllCalls hfail calls q

end RunAll

end DbusBroker
