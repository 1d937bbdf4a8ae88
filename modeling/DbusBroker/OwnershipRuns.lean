import DbusBroker.Ownership

/- Runs of the ownership policy: what a policy built by any sequence of calls
   answers.

   `OwnershipCall` is one call of the policy's interface, and `ownershipRun` makes
   the calls in order, stopping at the first that fails. `OwnershipHolds` ties a
   policy to the calls that built it: its wildcard is the fold of the wildcard
   calls' decisions, and each keyed store `Holds` for its own calls.

   What is proved:
     1. `ownershipRun_holds` — every policy a run builds satisfies `OwnershipHolds`
        (one step: `ownershipHolds_step`).
     2. `ownershipPolicyCheckAllowed_decides` — on a non-empty name that does not
        begin with '.', the check returns the decision that `Decides` over the calls
        whose rule applies to the name (`OwnershipCall.Matches`), and so, with
        distinct priorities, the decision of the highest-priority one
        (`ownershipPolicyCheckAllowed_eq`).
     3. `ownershipPolicyCheckAllowed_lastWins` — whatever the priorities, on any
        non-empty name the check decides by the last highest-priority decision among
        the wildcard calls', the name's entry and the entries of its prefixes.
     4. `ownershipRun_lookup` — both stores find, for a bounded key `{s, n}`, exactly
        the entry named `s[0..n)`.
     5. `ownershipRun_stores` — each store holds one entry per name added, with the
        strict fold of that name's rules; `ownershipPolicyAddEntry_tie` — two rules of
        equal priority under one name leave the first in the store, where the
        wildcard's merge takes the second.
     6. `ownershipPolicyCheckAllowed_perm` — with distinct priorities, the order of
        the calls does not change the checks.
     7. `ownershipPolicyCheckAllowed_snoc` — one more call changes the check of a
        name only if its rule applies to the name, and then to the call's own
        answer.
     8. `ownershipRun_runAllCalls` — a failed call leaves the policy as it was
        (`OwnershipCall.apply_error`), so a caller that goes on past failed calls
        ends where the run of the successful calls alone does.
-/

namespace DbusBroker

open PolicyDecision CRBTree

/-- A call of the ownership policy's interface. `alloc` is whether `malloc` returns
memory, should the call make a new entry. -/
inductive OwnershipCall where
  | addName (name : CStr) (deny : Bool) (priority : UInt64) (alloc : Bool)
  | addPrefix (key : CStr) (deny : Bool) (priority : UInt64) (alloc : Bool)
  | setWildcard (deny : Bool) (priority : UInt64)
  deriving DecidableEq, Repr

namespace OwnershipCall

/-- What the call does to the policy. -/
def apply : OwnershipCall → OwnershipPolicy → Int × OwnershipPolicy
  | addName name deny priority alloc, p => ownershipPolicyAddName p name deny priority alloc
  | addPrefix key deny priority alloc, p => ownershipPolicyAddPrefix p key deny priority alloc
  | setWildcard deny priority, p => ownershipPolicySetWildcard p deny priority

/-- The decision of the call's rule. -/
def decision : OwnershipCall → PolicyDecision
  | addName _ deny priority _ | addPrefix _ deny priority _ | setWildcard deny priority =>
    ⟨deny, priority⟩

/-- Whether the call's rule applies to the name `N`, as the spec says: a wildcard
always, a name when it is `N`, a prefix `P` when `N` is `P` or starts with `P`
followed by '.'. -/
def Matches (N : CStr) : OwnershipCall → Prop
  | addName name .. => name = N
  | addPrefix key .. => N = key ∨ key.bytes ++ ['.'.toUInt8] <+: N.bytes
  | setWildcard .. => True

instance (N : CStr) : DecidablePred (Matches N)
  | addName name .. => inferInstanceAs (Decidable (name = N))
  | addPrefix key .. => inferInstanceAs (Decidable (N = key ∨ _))
  | setWildcard .. => inferInstanceAs (Decidable True)

/-- The rule of an `add_name` call, as its store sees it. -/
def nameRule : OwnershipCall → Option (CStr × PolicyDecision)
  | addName name deny priority _ => some (name, ⟨deny, priority⟩)
  | _ => none

/-- The rule of an `add_prefix` call, as its store sees it. -/
def prefixRule : OwnershipCall → Option (CStr × PolicyDecision)
  | addPrefix key deny priority _ => some (key, ⟨deny, priority⟩)
  | _ => none

/-- The decision of a `set_wildcard` call. -/
def wildcardRule : OwnershipCall → Option PolicyDecision
  | setWildcard deny priority => some ⟨deny, priority⟩
  | _ => none

end OwnershipCall

open OwnershipCall

/-- The calls in order from `policy`, stopping at the first that returns an error. -/
def ownershipRun : List OwnershipCall → OwnershipPolicy → Except Int OwnershipPolicy :=
  runCalls OwnershipCall.apply

/-- A policy and the calls that built it: the wildcard is the fold of the wildcard
calls' decisions, and each keyed store `Holds` for its calls' rules. -/
structure OwnershipHolds (policy : OwnershipPolicy) (calls : List OwnershipCall) : Prop where
  names : Holds id policy.names (calls.filterMap nameRule)
  prefixes : Holds id policy.prefixes (calls.filterMap prefixRule)
  wildcard : policy.wildcard = (calls.filterMap wildcardRule).foldl update neutral

theorem agrees_insert (name : CStr) :
    Agrees (fun e : OwnershipPolicyEntry => id e.key)
      (ownershipPolicyEntryCompare ⟨name, name.length⟩) (id name) := by
  have := ownershipPolicyEntryCompare_agrees (s := name) le_rfl
  rwa [CStr.take_length] at this

theorem ownershipHolds_init : OwnershipHolds ownershipPolicyInit [] :=
  ⟨holds_nil, holds_nil, rfl⟩

theorem ownershipHolds_step {p p' : OwnershipPolicy} {cs : List OwnershipCall}
    {c : OwnershipCall} (h : OwnershipHolds p cs) (happ : c.apply p = (0, p')) :
    OwnershipHolds p' (cs ++ [c]) := by
  cases c with
  | addName name deny priority alloc =>
    simp only [apply, ownershipPolicyAddName] at happ
    rcases hadd : ownershipPolicyAddEntry p.names name deny priority alloc with ⟨r, t'⟩
    simp only [hadd, Prod.mk.injEq] at happ
    obtain ⟨rfl, rfl⟩ := happ
    refine ⟨?_, by simpa [prefixRule] using h.prefixes, by simpa [wildcardRule] using h.wildcard⟩
    simpa [nameRule] using h.names.step Function.injective_id (agrees_insert name) hadd
  | addPrefix key deny priority alloc =>
    simp only [apply, ownershipPolicyAddPrefix] at happ
    rcases hadd : ownershipPolicyAddEntry p.prefixes key deny priority alloc with ⟨r, t'⟩
    simp only [hadd, Prod.mk.injEq] at happ
    obtain ⟨rfl, rfl⟩ := happ
    refine ⟨by simpa [nameRule] using h.names, ?_, by simpa [wildcardRule] using h.wildcard⟩
    simpa [prefixRule] using h.prefixes.step Function.injective_id (agrees_insert key) hadd
  | setWildcard deny priority =>
    rw [apply, ownershipPolicySetWildcard, policySetWildcard_eq, Prod.mk.injEq] at happ
    obtain ⟨-, rfl⟩ := happ
    exact ⟨by simpa [nameRule] using h.names, by simpa [prefixRule] using h.prefixes,
      by simp [wildcardRule, h.wildcard]⟩

theorem ownershipRun_holds {calls : List OwnershipCall} {p : OwnershipPolicy}
    (hrun : ownershipRun calls ownershipPolicyInit = .ok p) : OwnershipHolds p calls := by
  simpa using runCalls_induction OwnershipHolds ownershipHolds_step ownershipHolds_init hrun

/-! ## The check -/

theorem OwnershipHolds.updateDecision_names {p : OwnershipPolicy} {calls : List OwnershipCall}
    (h : OwnershipHolds p calls) (N : CStr) (d : PolicyDecision) :
    ownershipPolicyUpdateDecision p.names ⟨N, N.length⟩ d =
      (keyedDecision (rulesFor (calls.filterMap nameRule) N)).elim d d.update := by
  rw [ownershipPolicyUpdateDecision, policyUpdateDecision_eq,
    h.names.findEntry_decision Function.injective_id (agrees_insert N)]

theorem OwnershipHolds.updateDecision_prefixes {p : OwnershipPolicy}
    {calls : List OwnershipCall} (h : OwnershipHolds p calls) {N : CStr} {n : Nat}
    (hn : n ≤ N.length) (d : PolicyDecision) :
    ownershipPolicyUpdateDecision p.prefixes ⟨N, n⟩ d =
      (keyedDecision (rulesFor (calls.filterMap prefixRule) (N.take n))).elim d d.update := by
  rw [ownershipPolicyUpdateDecision, policyUpdateDecision_eq,
    h.prefixes.findEntry_decision Function.injective_id (ownershipPolicyEntryCompare_agrees hn)]
  rfl

theorem ownershipPolicyCheckAllowed_fold (p : OwnershipPolicy) {N : CStr} (hN : N.bytes ≠ []) :
    ownershipPolicyCheckAllowed p N = some (
      let D := ((List.range (N.length + 1)).filter fun n => 0 < n ∧ PrefixKey N n).foldl
        (fun d n => ownershipPolicyUpdateDecision p.prefixes ⟨N, n⟩ d)
        (ownershipPolicyUpdateDecision p.names ⟨N, N.length⟩ p.wildcard)
      if D.deny then POLICY_E_ACCESS_DENIED else 0) := by
  unfold ownershipPolicyCheckAllowed
  split
  · next hempty =>
    have hnil : p.prefixes = .nil := by cases hp : p.prefixes <;> simp_all [CRBTree.isEmpty]
    rw [List.foldl_fixed' (fun n => by rw [hnil]; rfl)]
  · rw [prefixWalk_spec hN]; rfl

theorem nameRule_some {c : OwnershipCall} {k : CStr} {d : PolicyDecision}
    (h : nameRule c = some (k, d)) : c.decision = d ∧ c.Matches k := by
  cases c <;> simp only [nameRule, Option.some.injEq, Prod.mk.injEq, reduceCtorEq] at h
  obtain ⟨rfl, rfl⟩ := h
  exact ⟨rfl, rfl⟩

theorem prefixRule_some {c : OwnershipCall} {k : CStr} {d : PolicyDecision} {N : CStr}
    (h : prefixRule c = some (k, d)) (hN : N = k ∨ k.bytes ++ ['.'.toUInt8] <+: N.bytes) :
    c.decision = d ∧ c.Matches N := by
  cases c <;> simp only [prefixRule, Option.some.injEq, Prod.mk.injEq, reduceCtorEq] at h
  obtain ⟨rfl, rfl⟩ := h
  exact ⟨rfl, hN⟩

theorem wildcardRule_some {c : OwnershipCall} {d : PolicyDecision} (h : wildcardRule c = some d)
    (N : CStr) : c.decision = d ∧ c.Matches N := by
  cases c <;> simp only [wildcardRule, Option.some.injEq, reduceCtorEq] at h
  exact ⟨h, trivial⟩

theorem prefix_length_mem {N k : CStr} (hN : N.bytes ≠ [])
    (hdot : N.bytes.head? ≠ some '.'.toUInt8)
    (hm : N = k ∨ k.bytes ++ ['.'.toUInt8] <+: N.bytes) :
    N.take k.length = k ∧
      k.length ∈ (List.range (N.length + 1)).filter fun n => 0 < n ∧ PrefixKey N n := by
  have hpre : k.bytes <+: N.bytes := by
    rcases hm with rfl | h
    · exact List.prefix_refl _
    · exact (List.prefix_append _ _).trans h
  have htake : N.take k.length = k := CStr.ext_bytes (List.prefix_iff_eq_take.mp hpre).symm
  have hlen : k.length ≤ N.length := hpre.length_le
  refine ⟨htake, List.mem_filter.mpr ⟨List.mem_range.mpr (by omega), ?_⟩⟩
  simp only [decide_eq_true_eq, PrefixKey, htake]
  refine ⟨Nat.pos_of_ne_zero fun h0 => ?_, by rcases hm with rfl | h <;> simp_all⟩
  have hk : k.bytes = [] := List.length_eq_zero.mp h0
  rcases hm with rfl | h
  · exact hN hk
  · rw [hk, List.nil_append] at h
    obtain ⟨t, ht⟩ := h
    exact hdot (by simp [← ht])

/-- The decisions a check of `N` merges in, in order: the wildcard calls', then the
entry of `N` and the entry of each prefix the loop looks up, where there is one. -/
def ownershipCheckedDecisions (calls : List OwnershipCall) (N : CStr) : List PolicyDecision :=
  calls.filterMap wildcardRule ++
    (keyedDecision (rulesFor (calls.filterMap nameRule) N) ::
      ((List.range (N.length + 1)).filter fun n => 0 < n ∧ PrefixKey N n).map fun n =>
        keyedDecision (rulesFor (calls.filterMap prefixRule) (N.take n))).filterMap id

theorem OwnershipHolds.checkAllowed_eq {p : OwnershipPolicy} {calls : List OwnershipCall}
    (h : OwnershipHolds p calls) {N : CStr} (hN : N.bytes ≠ []) :
    ownershipPolicyCheckAllowed p N = some (if ((ownershipCheckedDecisions calls N).foldl update
      neutral).deny then POLICY_E_ACCESS_DENIED else 0) := by
  rw [ownershipPolicyCheckAllowed_fold p hN, List.foldl_ext _ (fun d n =>
      (keyedDecision (rulesFor (calls.filterMap prefixRule) (N.take n))).elim d d.update) _
      (fun d n hn => h.updateDecision_prefixes (Nat.lt_succ_iff.mp
        (List.mem_range.mp (List.mem_filter.mp hn).1)) d),
    h.updateDecision_names, ownershipCheckedDecisions, List.foldl_append, ← h.wildcard,
    ← foldl_elim_update, List.foldl_cons, List.foldl_map]

theorem ownershipPolicyCheckAllowed_decides {p : OwnershipPolicy} {calls : List OwnershipCall}
    (h : OwnershipHolds p calls) {N : CStr} (hN : N.bytes ≠ [])
    (hdot : N.bytes.head? ≠ some '.'.toUInt8) :
    ∃ D, ownershipPolicyCheckAllowed p N = some (if D.deny then POLICY_E_ACCESS_DENIED else 0) ∧
      Decides decision calls (Matches N) D := by
  refine ⟨_, h.checkAllowed_eq hN, decides_foldl_update ?_ ?_⟩
  · intro g hg
    rcases List.mem_append.mp hg with hg | hg
    · obtain ⟨c, hc, hcg⟩ := List.mem_filterMap.mp hg
      exact ⟨c, hc, (wildcardRule_some hcg N).2, (wildcardRule_some hcg N).1⟩
    · obtain ⟨x, hx, rfl⟩ := List.mem_filterMap.mp hg
      rcases List.mem_cons.mp hx with hx | hx
      · obtain ⟨c, hc, hcr⟩ :=
          List.mem_filterMap.mp (mem_rulesFor.mp (keyedDecision_wins hx.symm).1)
        exact ⟨c, hc, (nameRule_some hcr).2, (nameRule_some hcr).1⟩
      · obtain ⟨n, hn, hon⟩ := List.mem_map.mp hx
        obtain ⟨c, hc, hcr⟩ := List.mem_filterMap.mp (mem_rulesFor.mp (keyedDecision_wins hon).1)
        have hpk : PrefixKey N n := (of_decide_eq_true (List.mem_filter.mp hn).2).2
        have hm := prefixRule_some (N := N) hcr (hpk.imp Eq.symm id)
        exact ⟨c, hc, hm.2, hm.1⟩
  · intro c hc hM
    cases c with
    | addName name deny priority alloc =>
      have hmem : (⟨deny, priority⟩ : PolicyDecision) ∈ rulesFor (calls.filterMap nameRule) N :=
        mem_rulesFor.mpr (List.mem_filterMap.mpr ⟨_, hc, by simp [nameRule, show name = N from hM]⟩)
      obtain ⟨w, hw, hle⟩ := keyedDecision_of_mem hmem
      exact ⟨w, List.mem_append_right _ (List.mem_filterMap.mpr ⟨_, List.mem_cons_self _ _, hw⟩),
        hle⟩
    | addPrefix key deny priority alloc =>
      obtain ⟨htake, hmemL⟩ := prefix_length_mem hN hdot hM
      have hmem : (⟨deny, priority⟩ : PolicyDecision) ∈
          rulesFor (calls.filterMap prefixRule) (N.take key.length) := by
        rw [htake]; exact mem_rulesFor.mpr (List.mem_filterMap.mpr ⟨_, hc, rfl⟩)
      obtain ⟨w, hw, hle⟩ := keyedDecision_of_mem hmem
      exact ⟨w, List.mem_append_right _ (List.mem_filterMap.mpr
        ⟨_, List.mem_cons_of_mem _ (List.mem_map_of_mem _ hmemL), hw⟩), hle⟩
    | setWildcard deny priority =>
      exact ⟨⟨deny, priority⟩, List.mem_append_left _ (List.mem_filterMap.mpr ⟨_, hc, rfl⟩),
        UInt64.le_refl _⟩

/-- For a policy built by any run whose calls have pairwise distinct priorities, and any
non-empty name not beginning with '.', the check denies exactly when the highest-priority
call whose rule applies to the name was a deny, and allows when there is none. -/
theorem ownershipPolicyCheckAllowed_eq {calls : List OwnershipCall} {policy : OwnershipPolicy}
    (hrun : ownershipRun calls ownershipPolicyInit = .ok policy)
    (hprio : (calls.map fun c => c.decision.priority).Nodup) {N : CStr} (hN : N.bytes ≠ [])
    (hdot : N.bytes.head? ≠ some '.'.toUInt8) :
    ownershipPolicyCheckAllowed policy N = some (if ∃ c ∈ calls, c.Matches N ∧
      c.decision.deny = true ∧ ∀ c' ∈ calls, c'.Matches N → c'.decision.priority ≤ c.decision.priority
      then POLICY_E_ACCESS_DENIED else 0) := by
  obtain ⟨D, hcheck, hD⟩ := ownershipPolicyCheckAllowed_decides (ownershipRun_holds hrun) hN hdot
  rw [hcheck, hD.ite_deny hprio]

/-- In a policy any run builds, whatever the priorities, the check of a
non-empty name decides by the last decision of the highest priority among
`ownershipCheckedDecisions`: the wildcard calls' decisions in call order, then the
entry of the name, then the entries of the prefixes the loop looks up, shortest
first. At equal priority an entry wins over the wildcard, whatever the call order. -/
theorem ownershipPolicyCheckAllowed_lastWins {calls : List OwnershipCall}
    {policy : OwnershipPolicy} (hrun : ownershipRun calls ownershipPolicyInit = .ok policy)
    {N : CStr} (hN : N.bytes ≠ []) :
    ∃ D, ownershipPolicyCheckAllowed policy N = some (if D.deny then POLICY_E_ACCESS_DENIED else 0) ∧
      LastWins (ownershipCheckedDecisions calls N) D :=
  ⟨_, (ownershipRun_holds hrun).checkAllowed_eq hN, lastWins_foldl_update _⟩

theorem ownershipPolicyCheckAllowed_lastWins_a :
    ownershipRun [.addName ⟨[97], by decide⟩ false 5 true, .setWildcard true 5] ownershipPolicyInit =
      .ok ⟨.node .nil ⟨⟨[97], by decide⟩, ⟨false, 5⟩⟩ .nil, .nil, ⟨true, 5⟩⟩ ∧
    (⟨[97], by decide⟩ : CStr).bytes ≠ [] ∧
    (∃ D, ownershipPolicyCheckAllowed ⟨.node .nil ⟨⟨[97], by decide⟩, ⟨false, 5⟩⟩ .nil, .nil,
        ⟨true, 5⟩⟩ ⟨[97], by decide⟩ = some (if D.deny then POLICY_E_ACCESS_DENIED else 0) ∧
      LastWins (ownershipCheckedDecisions [.addName ⟨[97], by decide⟩ false 5 true,
        .setWildcard true 5] ⟨[97], by decide⟩) D) ∧
    ownershipPolicyCheckAllowed ⟨.node .nil ⟨⟨[97], by decide⟩, ⟨false, 5⟩⟩ .nil, .nil, ⟨true, 5⟩⟩
      ⟨[97], by decide⟩ = some 0 :=
  ⟨rfl, by decide, ownershipPolicyCheckAllowed_lastWins (by rfl) (by decide), by decide⟩

theorem ownershipPolicyCheckAllowed_prefix_a :
    ownershipRun [.setWildcard true 1, .addPrefix ⟨[97], by decide⟩ false 3 true,
        .addName ⟨[97, 46, 98], by decide⟩ true 2 true] ownershipPolicyInit =
      .ok ⟨.node .nil ⟨⟨[97, 46, 98], by decide⟩, ⟨true, 2⟩⟩ .nil,
        .node .nil ⟨⟨[97], by decide⟩, ⟨false, 3⟩⟩ .nil, ⟨true, 1⟩⟩ ∧
    ([OwnershipCall.setWildcard true 1, .addPrefix ⟨[97], by decide⟩ false 3 true,
      .addName ⟨[97, 46, 98], by decide⟩ true 2 true].map fun c => c.decision.priority).Nodup ∧
    (⟨[97, 46, 98], by decide⟩ : CStr).bytes ≠ [] ∧
    (⟨[97, 46, 98], by decide⟩ : CStr).bytes.head? ≠ some '.'.toUInt8 ∧
    ownershipPolicyCheckAllowed ⟨.node .nil ⟨⟨[97, 46, 98], by decide⟩, ⟨true, 2⟩⟩ .nil,
      .node .nil ⟨⟨[97], by decide⟩, ⟨false, 3⟩⟩ .nil, ⟨true, 1⟩⟩ ⟨[97, 46, 98], by decide⟩ =
        some 0 := by
  refine ⟨?run, ?prio, ?hN, ?hdot, ?_⟩
  · rfl
  · decide
  · decide
  · decide
  · rw [ownershipPolicyCheckAllowed_eq ?run ?prio ?hN ?hdot, if_neg (by decide)]

/-! ## The order of the calls -/

/-- With pairwise distinct priorities, two runs of the same calls in two orders answer the
check of every non-empty name not beginning with '.' alike. Equal priorities under one
name are broken by call order, so the priorities must differ. -/
theorem ownershipPolicyCheckAllowed_perm {calls calls' : List OwnershipCall}
    {p p' : OwnershipPolicy} (hrun : ownershipRun calls ownershipPolicyInit = .ok p)
    (hrun' : ownershipRun calls' ownershipPolicyInit = .ok p') (hperm : calls.Perm calls')
    (hprio : (calls.map fun c => c.decision.priority).Nodup) {N : CStr} (hN : N.bytes ≠ [])
    (hdot : N.bytes.head? ≠ some '.'.toUInt8) :
    ownershipPolicyCheckAllowed p N = ownershipPolicyCheckAllowed p' N := by
  obtain ⟨D, hD, hdec⟩ := ownershipPolicyCheckAllowed_decides (ownershipRun_holds hrun) hN hdot
  obtain ⟨D', hD', hdec'⟩ := ownershipPolicyCheckAllowed_decides (ownershipRun_holds hrun') hN hdot
  rw [hD, hD', hdec.unique (hdec'.perm hperm.symm) hprio]

theorem ownershipPolicyCheckAllowed_perm_a :
    ownershipRun [.addName ⟨[97], by decide⟩ true 3 true, .addName ⟨[97], by decide⟩ false 5 true]
        ownershipPolicyInit = .ok ⟨.node .nil ⟨⟨[97], by decide⟩, ⟨false, 5⟩⟩ .nil, .nil, neutral⟩ ∧
    ownershipRun [.addName ⟨[97], by decide⟩ false 5 true, .addName ⟨[97], by decide⟩ true 3 true]
        ownershipPolicyInit = .ok ⟨.node .nil ⟨⟨[97], by decide⟩, ⟨false, 5⟩⟩ .nil, .nil, neutral⟩ ∧
    [OwnershipCall.addName ⟨[97], by decide⟩ true 3 true, .addName ⟨[97], by decide⟩ false 5 true].Perm
      [.addName ⟨[97], by decide⟩ false 5 true, .addName ⟨[97], by decide⟩ true 3 true] ∧
    ([OwnershipCall.addName ⟨[97], by decide⟩ true 3 true,
      .addName ⟨[97], by decide⟩ false 5 true].map fun c => c.decision.priority).Nodup ∧
    (⟨[97], by decide⟩ : CStr).bytes ≠ [] ∧
    (⟨[97], by decide⟩ : CStr).bytes.head? ≠ some '.'.toUInt8 ∧
    ownershipPolicyCheckAllowed ⟨.node .nil ⟨⟨[97], by decide⟩, ⟨false, 5⟩⟩ .nil, .nil, neutral⟩
        ⟨[97], by decide⟩ =
      ownershipPolicyCheckAllowed ⟨.node .nil ⟨⟨[97], by decide⟩, ⟨false, 5⟩⟩ .nil, .nil, neutral⟩
        ⟨[97], by decide⟩ := by
  refine ⟨?run, ?run', ?perm, ?prio, ?hN, ?hdot,
    ownershipPolicyCheckAllowed_perm ?run ?run' ?perm ?prio ?hN ?hdot⟩
  · rfl
  · rfl
  · exact .swap _ _ _
  all_goals decide

/-! ## One more call -/

theorem ownershipCheckedDecisions_snoc (calls : List OwnershipCall) (c : OwnershipCall)
    (N : CStr) :
    Raises c.decision (ownershipCheckedDecisions calls N) (ownershipCheckedDecisions (calls ++ [c]) N) ∧
      (¬ c.Matches N → ownershipCheckedDecisions (calls ++ [c]) N = ownershipCheckedDecisions calls N) := by
  cases c <;> simp only [ownershipCheckedDecisions, filterMap_snoc, nameRule, prefixRule,
    wildcardRule, Option.toList_some, Option.toList_none, List.append_nil]
  case addName name deny priority alloc =>
    refine ⟨.append (.refl _) (.filterMap_cons (keyedDecision_rulesFor_snoc _ _ _ _) (.refl _)),
      fun hM => ?_⟩
    rw [rulesFor_append, if_neg (show ¬ name = N from hM)]
  case addPrefix key deny priority alloc =>
    refine ⟨.append (.refl _) (.filterMap_cons (Or.inl rfl)
      (.filterMap_map fun n _ => keyedDecision_rulesFor_snoc _ _ _ _)), fun hM => ?_⟩
    -- a prefix the loop looks up and the rule's key would make the rule apply
    refine congrArg _ (congrArg _ (congrArg _ (List.map_congr_left fun n hn => ?_)))
    rw [rulesFor_append, if_neg fun hkey => hM ?_]
    obtain ⟨-, hpk⟩ := of_decide_eq_true (List.mem_filter.mp hn).2
    unfold PrefixKey at hpk
    rw [← hkey] at hpk
    exact hpk.imp Eq.symm id
  case setWildcard =>
    rw [List.append_assoc, List.singleton_append]
    exact ⟨.append (.refl _) (.insert (.refl _)), fun hM => absurd trivial hM⟩

/-- A call that returns 0, made on a policy any run built, changes
the check of a non-empty name only if its rule applies to the name, and then only to
the call's own answer: a deny never allows what was denied, an allow never denies
what was allowed. -/
theorem ownershipPolicyCheckAllowed_snoc {calls : List OwnershipCall} {p p' : OwnershipPolicy}
    (hrun : ownershipRun calls ownershipPolicyInit = .ok p) {c : OwnershipCall}
    (happ : c.apply p = (0, p')) {N : CStr} (hN : N.bytes ≠ []) :
    ownershipPolicyCheckAllowed p' N = ownershipPolicyCheckAllowed p N ∨
      c.Matches N ∧
        ownershipPolicyCheckAllowed p' N = some (if c.decision.deny then POLICY_E_ACCESS_DENIED else 0) := by
  have h := ownershipRun_holds hrun
  rw [h.checkAllowed_eq hN, (ownershipHolds_step h happ).checkAllowed_eq hN]
  obtain ⟨hraise, hsame⟩ := ownershipCheckedDecisions_snoc calls c N
  by_cases hM : c.Matches N
  · rcases hraise.foldl_update_neutral with heq | heq
    · exact Or.inl (by rw [heq])
    · exact Or.inr ⟨hM, by rw [heq]⟩
  · exact Or.inl (by rw [hsame hM])

theorem ownershipPolicyCheckAllowed_snoc_a :
    ownershipRun [.setWildcard true 3] ownershipPolicyInit = .ok ⟨.nil, .nil, ⟨true, 3⟩⟩ ∧
    (OwnershipCall.addName ⟨[97], by decide⟩ false 5 true).apply ⟨.nil, .nil, ⟨true, 3⟩⟩ =
      (0, ⟨.node .nil ⟨⟨[97], by decide⟩, ⟨false, 5⟩⟩ .nil, .nil, ⟨true, 3⟩⟩) ∧
    (⟨[97], by decide⟩ : CStr).bytes ≠ [] ∧
    (ownershipPolicyCheckAllowed ⟨.node .nil ⟨⟨[97], by decide⟩, ⟨false, 5⟩⟩ .nil, .nil, ⟨true, 3⟩⟩
        ⟨[97], by decide⟩ = ownershipPolicyCheckAllowed ⟨.nil, .nil, ⟨true, 3⟩⟩ ⟨[97], by decide⟩ ∨
      (OwnershipCall.addName ⟨[97], by decide⟩ false 5 true).Matches ⟨[97], by decide⟩ ∧
        ownershipPolicyCheckAllowed ⟨.node .nil ⟨⟨[97], by decide⟩, ⟨false, 5⟩⟩ .nil, .nil, ⟨true, 3⟩⟩
          ⟨[97], by decide⟩ = some (if (OwnershipCall.addName ⟨[97], by decide⟩ false 5 true).decision.deny
            then POLICY_E_ACCESS_DENIED else 0)) := by
  refine ⟨?run, ?step, ?name, ownershipPolicyCheckAllowed_snoc ?run ?step ?name⟩
  · rfl
  · rfl
  · decide

/-! ## Failed calls -/

theorem OwnershipCall.apply_error {c : OwnershipCall} {p p' : OwnershipPolicy} {r : Int}
    (happ : c.apply p = (r, p')) (hr : r ≠ 0) : p' = p := by
  cases c with
  | addName name deny priority alloc | addPrefix name deny priority alloc =>
    simp only [apply, ownershipPolicyAddName, ownershipPolicyAddPrefix, ownershipPolicyAddEntry,
      ownershipPolicyEntryNew] at happ
    obtain ⟨rfl, rfl⟩ := Prod.mk.inj happ
    rw [policyAddEntry_error _ (policyEntryNew_error _ _ _ _ _ _) Prod.mk.eta.symm hr]
  | setWildcard deny priority => exact absurd (Prod.mk.inj happ).1.symm hr

/-- A run that goes on past failed calls ends on the policy the run of its successful
calls alone builds, so every theorem about runs holds of it, for those calls. -/
theorem ownershipRun_runAllCalls (calls : List OwnershipCall) :
    ownershipRun (runAllCalls OwnershipCall.apply calls ownershipPolicyInit).2 ownershipPolicyInit =
      .ok (runAllCalls OwnershipCall.apply calls ownershipPolicyInit).1 :=
  runCalls_runAllCalls OwnershipCall.apply_error calls ownershipPolicyInit

/-! ## The stores -/

/-- For `n ≤ strlen s`, the comparator orders the key `{s, n}` against any stored name as
`s[0..n)` against it, and in both stores of a policy any run builds, the lookup of `{s,
n}` finds exactly the entry named `s[0..n)`. -/
theorem ownershipRun_lookup {calls : List OwnershipCall} {policy : OwnershipPolicy}
    (hrun : ownershipRun calls ownershipPolicyInit = .ok policy) {s : CStr} {n : Nat}
    (hn : n ≤ s.length) :
    (∀ e : OwnershipPolicyEntry, (ownershipPolicyEntryCompare ⟨s, n⟩ e < 0 ↔ s.take n < e.key) ∧
      (ownershipPolicyEntryCompare ⟨s, n⟩ e = 0 ↔ s.take n = e.key) ∧
      (0 < ownershipPolicyEntryCompare ⟨s, n⟩ e ↔ e.key < s.take n)) ∧
    (∀ e, policy.names.findEntry (ownershipPolicyEntryCompare ⟨s, n⟩) = some e ↔
      e ∈ policy.names.toList ∧ e.key = s.take n) ∧
    (∀ e, policy.prefixes.findEntry (ownershipPolicyEntryCompare ⟨s, n⟩) = some e ↔
      e ∈ policy.prefixes.toList ∧ e.key = s.take n) := by
  have hf := ownershipPolicyEntryCompare_agrees hn
  have h := ownershipRun_holds hrun
  exact ⟨fun e => ⟨(hf e).1, (hf e).2, hf.pos_iff e⟩,
    fun e => findEntry_eq_some_iff hf h.names.ordered,
    fun e => findEntry_eq_some_iff hf h.prefixes.ordered⟩

theorem ownershipRun_lookup_ab :
    ownershipRun [.addName ⟨[97], by decide⟩ true 5 true, .addPrefix ⟨[97], by decide⟩ false 3 true]
        ownershipPolicyInit =
      .ok ⟨.node .nil ⟨⟨[97], by decide⟩, ⟨true, 5⟩⟩ .nil,
        .node .nil ⟨⟨[97], by decide⟩, ⟨false, 3⟩⟩ .nil, neutral⟩ ∧
    1 ≤ (⟨[97, 98], by decide⟩ : CStr).length ∧
    (CRBTree.node .nil ⟨⟨[97], by decide⟩, ⟨true, 5⟩⟩ .nil).findEntry
      (ownershipPolicyEntryCompare ⟨⟨[97, 98], by decide⟩, 1⟩) =
        some ⟨⟨[97], by decide⟩, ⟨true, 5⟩⟩ ∧
    (CRBTree.node .nil ⟨⟨[97], by decide⟩, ⟨false, 3⟩⟩ .nil).findEntry
      (ownershipPolicyEntryCompare ⟨⟨[97, 98], by decide⟩, 1⟩) =
        some ⟨⟨[97], by decide⟩, ⟨false, 3⟩⟩ := by
  refine ⟨?run, ?hn, ((ownershipRun_lookup ?run ?hn).2.1 _).mpr ⟨by decide, by decide⟩,
    ((ownershipRun_lookup ?run ?hn).2.2 _).mpr ⟨by decide, by decide⟩⟩
  · rfl
  · decide

/-- In a policy any run builds, each store holds one entry for each name added to it, and
that entry holds the `keyedDecision` of the name's rules: the highest priority, and the
first of those that tie. -/
theorem ownershipRun_stores {calls : List OwnershipCall} {policy : OwnershipPolicy}
    (hrun : ownershipRun calls ownershipPolicyInit = .ok policy) :
    ((policy.names.toList.map (·.key)).Nodup ∧
      (∀ k, k ∈ policy.names.toList.map (·.key) ↔ k ∈ (calls.filterMap nameRule).map Prod.fst) ∧
      ∀ e ∈ policy.names.toList,
        keyedDecision (rulesFor (calls.filterMap nameRule) e.key) = some e.decision) ∧
    ((policy.prefixes.toList.map (·.key)).Nodup ∧
      (∀ k, k ∈ policy.prefixes.toList.map (·.key) ↔
        k ∈ (calls.filterMap prefixRule).map Prod.fst) ∧
      ∀ e ∈ policy.prefixes.toList,
        keyedDecision (rulesFor (calls.filterMap prefixRule) e.key) = some e.decision) := by
  have h := ownershipRun_holds hrun
  exact ⟨⟨h.names.nodup, h.names.mem_keys, h.names.decision⟩,
    ⟨h.prefixes.nodup, h.prefixes.mem_keys, h.prefixes.decision⟩⟩

theorem ownershipRun_stores_a :
    keyedDecision (rulesFor ([OwnershipCall.addName ⟨[97], by decide⟩ false 5 true,
      .addName ⟨[97], by decide⟩ true 7 true].filterMap nameRule) ⟨[97], by decide⟩) =
      some ⟨true, 7⟩ :=
  (ownershipRun_stores (show ownershipRun [.addName ⟨[97], by decide⟩ false 5 true,
      .addName ⟨[97], by decide⟩ true 7 true] ownershipPolicyInit =
      .ok ⟨.node .nil ⟨⟨[97], by decide⟩, ⟨true, 7⟩⟩ .nil, .nil, neutral⟩ from rfl)).1.2.2
    ⟨⟨[97], by decide⟩, ⟨true, 7⟩⟩ (by decide)

/-- Two rules of equal priority under one name: the store keeps the first, where
the wildcard's merge, folded over the same two rules, takes the second. -/
theorem ownershipPolicyAddEntry_tie :
    (ownershipRun [.addName ⟨[97], by decide⟩ false 5 true, .addName ⟨[97], by decide⟩ true 5 true]
      ownershipPolicyInit).map (·.names.toList) = .ok [⟨⟨[97], by decide⟩, ⟨false, 5⟩⟩] ∧
    [(⟨false, 5⟩ : PolicyDecision), ⟨true, 5⟩].foldl update neutral = ⟨true, 5⟩ :=
  ⟨rfl, rfl⟩

end DbusBroker
