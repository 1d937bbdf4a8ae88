import DbusBroker.Connection

/- Runs of the connection policy: what a policy built by any sequence of calls
   answers.

   `ConnectionCall` is one call of the policy's interface, and `connectionRun` makes
   the calls in order, stopping at the first that fails. `ConnectionHolds` ties a
   policy to the calls that built it: each wildcard is the fold of its calls'
   decisions, and each tree is a `ConnectionStore` of its calls' rules.

   Since every entry is keyed 0, the check of a uid other than 0 never finds one: it
   answers by the wildcards alone, and an `add_uid` call, even for that uid, does not
   change it. The check of the uid 0 reads the root entry, which the rotations of
   `c_rbtree_add` choose; it is left out.

   What is proved:
     1. `connectionRun_holds` — every policy a run builds satisfies `ConnectionHolds`
        (one step: `connectionHolds_step`); `connectionRun_stores` — every entry is
        keyed 0, and, when no call adds the id 0, each tree holds one entry per call
        that added to it, in call order.
     2. `connectionPolicyEntryNew_drops_uid` — a deny uid wildcard at priority 3 and
        an allow rule for the uid 7 at priority 5: the check of 7 denies.
     3. `connectionPolicyCheckAllowed_lastWins` — whatever the priorities, the check
        of a uid other than 0 decides by the last highest-priority decision among the
        uid wildcard and the gid wildcard; `connectionPolicyCheckAllowed_eq` — with
        distinct priorities, by the highest-priority wildcard call that counts
        (`ConnectionCall.WildcardCounts`): every `set_gid_wildcard` call, and the
        `set_uid_wildcard` calls but those at priority 0, which tie with the untouched
        gid wildcard `(allow, 0)` and lose to it.
     4. `connectionPolicyCheckAllowed_perm` — with distinct priorities, the order of
        the calls does not change the check of a uid other than 0.
     5. `connectionPolicyCheckAllowed_snoc` — one more call changes the check of a
        uid other than 0 only if it is a wildcard call that counts, and then to the
        call's own answer.
     6. `connectionRun_runAllCalls` — a failed call leaves the policy as it was
        (`ConnectionCall.apply_error`), so a caller that goes on past failed calls
        ends where the run of the successful calls alone does.
-/

namespace DbusBroker

open PolicyDecision CRBTree

/-- A call of the connection policy's interface. `alloc` is whether `calloc`
returns memory, should the call make a new entry. -/
inductive ConnectionCall where
  | addUid (uid : UInt32) (deny : Bool) (priority : UInt64) (alloc : Bool)
  | addGid (gid : UInt32) (deny : Bool) (priority : UInt64) (alloc : Bool)
  | setUidWildcard (deny : Bool) (priority : UInt64)
  | setGidWildcard (deny : Bool) (priority : UInt64)
  deriving DecidableEq, Repr

namespace ConnectionCall

/-- What the call does to the policy. -/
def apply : ConnectionCall → ConnectionPolicy → Int × ConnectionPolicy
  | addUid uid deny priority alloc, p => connectionPolicyAddUid p uid deny priority alloc
  | addGid gid deny priority alloc, p => connectionPolicyAddGid p gid deny priority alloc
  | setUidWildcard deny priority, p => connectionPolicySetUidWildcard p deny priority
  | setGidWildcard deny priority, p => connectionPolicySetGidWildcard p deny priority

/-- The decision of the call's rule. -/
def decision : ConnectionCall → PolicyDecision
  | addUid _ deny priority _ | addGid _ deny priority _ | setUidWildcard deny priority
  | setGidWildcard deny priority => ⟨deny, priority⟩

/-- The calls the spec has a check of `u` weigh, leaving out the groups: both
wildcards, and the `add_uid` calls of `u`. -/
def Relevant (u : UInt32) : ConnectionCall → Prop
  | addUid uid .. => uid = u
  | addGid .. => False
  | setUidWildcard .. | setGidWildcard .. => True

/-- The calls the check of a uid other than 0 does weigh: the gid wildcard calls, and
the uid wildcard calls at a priority other than 0. -/
def WildcardCounts : ConnectionCall → Prop
  | addUid .. | addGid .. => False
  | setUidWildcard _ priority => priority ≠ 0
  | setGidWildcard .. => True

instance (u : UInt32) : DecidablePred (Relevant u)
  | addUid uid .. => inferInstanceAs (Decidable (uid = u))
  | addGid .. => inferInstanceAs (Decidable False)
  | setUidWildcard .. | setGidWildcard .. => inferInstanceAs (Decidable True)

instance : DecidablePred WildcardCounts
  | addUid .. | addGid .. => inferInstanceAs (Decidable False)
  | setUidWildcard _ priority => inferInstanceAs (Decidable (priority ≠ 0))
  | setGidWildcard .. => inferInstanceAs (Decidable True)

/-- The rule of an `add_uid` call, as its tree sees it. -/
def uidRule : ConnectionCall → Option (UInt32 × PolicyDecision)
  | addUid uid deny priority _ => some (uid, ⟨deny, priority⟩)
  | _ => none

/-- The rule of an `add_gid` call, as its tree sees it. -/
def gidRule : ConnectionCall → Option (UInt32 × PolicyDecision)
  | addGid gid deny priority _ => some (gid, ⟨deny, priority⟩)
  | _ => none

/-- The decision of a `set_uid_wildcard` call. -/
def uidWildcardRule : ConnectionCall → Option PolicyDecision
  | setUidWildcard deny priority => some ⟨deny, priority⟩
  | _ => none

/-- The decision of a `set_gid_wildcard` call. -/
def gidWildcardRule : ConnectionCall → Option PolicyDecision
  | setGidWildcard deny priority => some ⟨deny, priority⟩
  | _ => none

end ConnectionCall

open ConnectionCall

/-- The calls in order from `policy`, stopping at the first that returns an error. -/
def connectionRun : List ConnectionCall → ConnectionPolicy → Except Int ConnectionPolicy :=
  runCalls ConnectionCall.apply

/-- A policy and the calls that built it. -/
structure ConnectionHolds (policy : ConnectionPolicy) (calls : List ConnectionCall) : Prop where
  uids : ConnectionStore policy.uidTree (calls.filterMap uidRule)
  gids : ConnectionStore policy.gidTree (calls.filterMap gidRule)
  uidWildcard : policy.uidWildcard = (calls.filterMap uidWildcardRule).foldl update neutral
  gidWildcard : policy.gidWildcard = (calls.filterMap gidWildcardRule).foldl update neutral

theorem connectionHolds_step {p p' : ConnectionPolicy} {cs : List ConnectionCall}
    {c : ConnectionCall} (h : ConnectionHolds p cs) (happ : c.apply p = (0, p')) :
    ConnectionHolds p' (cs ++ [c]) := by
  cases c with
  | addUid uid deny priority alloc =>
    simp only [apply, connectionPolicyAddUid] at happ
    rcases hadd : connectionPolicyAddEntry p.uidTree uid deny priority alloc with ⟨r, t'⟩
    simp only [hadd, Prod.mk.injEq] at happ
    obtain ⟨rfl, rfl⟩ := happ
    refine ⟨?_, by simpa [gidRule] using h.gids, by simpa [uidWildcardRule] using h.uidWildcard,
      by simpa [gidWildcardRule] using h.gidWildcard⟩
    simpa [uidRule] using h.uids.step hadd
  | addGid gid deny priority alloc =>
    simp only [apply, connectionPolicyAddGid] at happ
    rcases hadd : connectionPolicyAddEntry p.gidTree gid deny priority alloc with ⟨r, t'⟩
    simp only [hadd, Prod.mk.injEq] at happ
    obtain ⟨rfl, rfl⟩ := happ
    refine ⟨by simpa [uidRule] using h.uids, ?_, by simpa [uidWildcardRule] using h.uidWildcard,
      by simpa [gidWildcardRule] using h.gidWildcard⟩
    simpa [gidRule] using h.gids.step hadd
  | setUidWildcard deny priority =>
    rw [apply, connectionPolicySetUidWildcard, policySetWildcard_eq, Prod.mk.injEq] at happ
    obtain ⟨-, rfl⟩ := happ
    exact ⟨by simpa [uidRule] using h.uids, by simpa [gidRule] using h.gids,
      by simp [uidWildcardRule, h.uidWildcard], by simpa [gidWildcardRule] using h.gidWildcard⟩
  | setGidWildcard deny priority =>
    rw [apply, connectionPolicySetGidWildcard, policySetWildcard_eq, Prod.mk.injEq] at happ
    obtain ⟨-, rfl⟩ := happ
    exact ⟨by simpa [uidRule] using h.uids, by simpa [gidRule] using h.gids,
      by simpa [uidWildcardRule] using h.uidWildcard, by simp [gidWildcardRule, h.gidWildcard]⟩

theorem connectionRun_holds {calls : List ConnectionCall} {p : ConnectionPolicy}
    (hrun : connectionRun calls connectionPolicyInit = .ok p) : ConnectionHolds p calls := by
  simpa using runCalls_induction ConnectionHolds connectionHolds_step
    (⟨connectionStore_nil, connectionStore_nil, rfl, rfl⟩ :
      ConnectionHolds connectionPolicyInit []) hrun

/-- The trees of a policy any run builds: every entry is keyed 0, and, when no call
adds the id 0, each tree holds one entry per call that added to it, in call order,
with the call's decision, so two calls for one id leave two entries. -/
theorem connectionRun_stores {calls : List ConnectionCall} {policy : ConnectionPolicy}
    (hrun : connectionRun calls connectionPolicyInit = .ok policy) :
    ((∀ e ∈ policy.uidTree.toList, e.key = 0) ∧
      (0 ∉ (calls.filterMap uidRule).map Prod.fst →
        policy.uidTree.toList = (calls.filterMap uidRule).map fun r => ⟨0, r.2⟩)) ∧
    ((∀ e ∈ policy.gidTree.toList, e.key = 0) ∧
      (0 ∉ (calls.filterMap gidRule).map Prod.fst →
        policy.gidTree.toList = (calls.filterMap gidRule).map fun r => ⟨0, r.2⟩)) := by
  have h := connectionRun_holds hrun
  exact ⟨⟨h.uids.zeroKeyed, h.uids.entries⟩, ⟨h.gids.zeroKeyed, h.gids.entries⟩⟩

theorem connectionRun_stores_seven :
    connectionRun [.addUid 7 false 5 true, .addUid 7 true 6 true] connectionPolicyInit =
      .ok ⟨.node .nil ⟨0, ⟨false, 5⟩⟩ (.node .nil ⟨0, ⟨true, 6⟩⟩ .nil), .nil, neutral, neutral⟩ ∧
    ((∀ e ∈ (CRBTree.node .nil (⟨0, ⟨false, 5⟩⟩ : ConnectionPolicyEntry)
        (.node .nil ⟨0, ⟨true, 6⟩⟩ .nil)).toList, e.key = 0) ∧
      (0 ∉ ([ConnectionCall.addUid 7 false 5 true, .addUid 7 true 6 true].filterMap uidRule).map
          Prod.fst →
        (CRBTree.node .nil (⟨0, ⟨false, 5⟩⟩ : ConnectionPolicyEntry)
          (.node .nil ⟨0, ⟨true, 6⟩⟩ .nil)).toList =
          ([ConnectionCall.addUid 7 false 5 true, .addUid 7 true 6 true].filterMap uidRule).map
            fun r => ⟨0, r.2⟩)) ∧
    ((∀ e ∈ (CRBTree.nil : CRBTree ConnectionPolicyEntry).toList, e.key = 0) ∧
      (0 ∉ ([ConnectionCall.addUid 7 false 5 true, .addUid 7 true 6 true].filterMap gidRule).map
          Prod.fst →
        (CRBTree.nil : CRBTree ConnectionPolicyEntry).toList =
          ([ConnectionCall.addUid 7 false 5 true, .addUid 7 true 6 true].filterMap gidRule).map
            fun r => ⟨0, r.2⟩)) := by
  refine ⟨?run, connectionRun_stores ?run⟩
  rfl

/-! ## The check of a uid other than 0 -/

/-- The decisions the check of a uid other than 0 merges, in order: the uid wildcard
and the gid wildcard, each the fold of its calls. -/
def connectionWildcardDecisions (calls : List ConnectionCall) : List PolicyDecision :=
  [(calls.filterMap uidWildcardRule).foldl update neutral,
    (calls.filterMap gidWildcardRule).foldl update neutral]

theorem ConnectionHolds.checkAllowed_eq {p : ConnectionPolicy} {calls : List ConnectionCall}
    (h : ConnectionHolds p calls) {u : UInt32} (hu : u ≠ 0) :
    connectionPolicyCheckAllowed p u =
      if ((connectionWildcardDecisions calls).foldl update neutral).deny
      then POLICY_E_ACCESS_DENIED else 0 := by
  rw [connectionPolicyCheckAllowed, h.uids.zeroKeyed.updateDecision hu, h.uidWildcard,
    h.gidWildcard, connectionWildcardDecisions, List.foldl_cons, List.foldl_cons, List.foldl_nil,
    neutral_update]
  rfl

theorem wildcardCounts_of_uidWildcardRule {c : ConnectionCall} {d : PolicyDecision}
    (h : uidWildcardRule c = some d) (hp : d.priority ≠ 0) : c.WildcardCounts ∧ c.decision = d := by
  cases c <;> simp only [uidWildcardRule, Option.some.injEq, reduceCtorEq] at h
  subst h
  exact ⟨hp, rfl⟩

theorem wildcardCounts_of_gidWildcardRule {c : ConnectionCall} {d : PolicyDecision}
    (h : gidWildcardRule c = some d) : c.WildcardCounts ∧ c.decision = d := by
  cases c <;> simp only [gidWildcardRule, Option.some.injEq, reduceCtorEq] at h
  exact ⟨trivial, h⟩

theorem connectionWildcardDecisions_source (calls : List ConnectionCall) :
    (∃ c ∈ calls, c.WildcardCounts ∧ c.decision = (connectionWildcardDecisions calls).foldl update neutral) ∨
      ((∀ c ∈ calls, ¬ c.WildcardCounts) ∧
        (connectionWildcardDecisions calls).foldl update neutral = neutral) := by
  simp only [connectionWildcardDecisions, List.foldl_cons, List.foldl_nil, neutral_update]
  set U := calls.filterMap uidWildcardRule
  set G := calls.filterMap gidWildcardRule
  by_cases hug : (G.foldl update neutral).priority < (U.foldl update neutral).priority
  · -- the uid wildcard decides, at a priority above the gid wildcard's, so not 0
    have hp : (U.foldl update neutral).priority ≠ 0 := fun h0 => by
      rw [h0, prio_lt_iff] at hug; exact Nat.not_lt_zero _ hug
    have hU : U ≠ [] := fun hU => hp (by rw [hU]; rfl)
    obtain ⟨c, hc, hcr⟩ := List.mem_filterMap.mp (wins_foldl_update_neutral hU).1
    obtain ⟨hM, hdc⟩ := wildcardCounts_of_uidWildcardRule hcr hp
    exact Or.inl ⟨c, hc, hM, by rw [hdc]; simp [update, hug]⟩
  rw [show (U.foldl update neutral).update (G.foldl update neutral) = G.foldl update neutral by
    simp [update, hug]]
  by_cases hG : G = []
  · -- no gid wildcard call, and the uid wildcard calls are all at priority 0
    refine Or.inr ⟨fun c hc hM => ?_, by rw [hG]; rfl⟩
    cases c with
    | addUid | addGid => exact hM
    | setUidWildcard deny priority =>
      have hle : priority ≤ (U.foldl update neutral).priority :=
        le_foldl_update_neutral (List.mem_filterMap.mpr ⟨_, hc, rfl⟩ : ⟨deny, priority⟩ ∈ U)
      rw [hG] at hug
      simp only [List.foldl_nil, neutral_priority, prio_lt_iff, UInt64.toNat_zero] at hug
      rw [prio_le_iff] at hle
      exact hM (prio_eq_iff.mpr (by rw [UInt64.toNat_zero]; omega))
    | setGidWildcard deny priority =>
      exact List.ne_nil_of_mem (List.mem_filterMap.mpr ⟨_, hc, rfl⟩ : ⟨deny, priority⟩ ∈ G) hG
  · obtain ⟨c, hc, hcr⟩ := List.mem_filterMap.mp (wins_foldl_update_neutral hG).1
    exact Or.inl ⟨c, hc, wildcardCounts_of_gidWildcardRule hcr⟩

theorem le_connectionWildcardDecisions {calls : List ConnectionCall} {c : ConnectionCall}
    (hc : c ∈ calls) (hM : c.WildcardCounts) :
    c.decision.priority ≤ ((connectionWildcardDecisions calls).foldl update neutral).priority := by
  simp only [connectionWildcardDecisions, List.foldl_cons, List.foldl_nil, neutral_update]
  cases c with
  | addUid | addGid => exact hM.elim
  | setUidWildcard deny priority =>
    exact UInt64.le_trans (le_foldl_update_neutral (List.mem_filterMap.mpr ⟨_, hc, rfl⟩))
      (le_update_left _ _)
  | setGidWildcard deny priority =>
    exact UInt64.le_trans (le_foldl_update_neutral (List.mem_filterMap.mpr ⟨_, hc, rfl⟩))
      (le_update_right _ _)

theorem connectionWildcardDecisions_decides (calls : List ConnectionCall) :
    Decides decision calls WildcardCounts ((connectionWildcardDecisions calls).foldl update neutral) :=
  ⟨fun ⟨c, hc, hM⟩ => (connectionWildcardDecisions_source calls).resolve_right
      fun ⟨hn, _⟩ => hn c hc hM,
    fun _ hc hM => le_connectionWildcardDecisions hc hM,
    fun hn => ((connectionWildcardDecisions_source calls).resolve_left
      fun ⟨c, hc, hM, _⟩ => hn c hc hM).2⟩

/-- A deny wildcard for the uids at priority 3, then an allow rule for the uid 7 at
priority 5: `connection_policy_entry_new` links the rule's entry keyed 0, the lookup
of 7 passes it by, and the check of 7 denies, although the rule for 7 is the relevant
call of highest priority. -/
theorem connectionPolicyEntryNew_drops_uid :
    connectionRun [.setUidWildcard true 3, .addUid 7 false 5 true] connectionPolicyInit =
      .ok ⟨.node .nil ⟨0, ⟨false, 5⟩⟩ .nil, .nil, ⟨true, 3⟩, neutral⟩ ∧
    connectionPolicyCheckAllowed ⟨.node .nil ⟨0, ⟨false, 5⟩⟩ .nil, .nil, ⟨true, 3⟩, neutral⟩ 7 =
      POLICY_E_ACCESS_DENIED ∧
    ([ConnectionCall.setUidWildcard true 3, .addUid 7 false 5 true].map
      fun c => c.decision.priority).Nodup ∧
    ∃ c ∈ [ConnectionCall.setUidWildcard true 3, .addUid 7 false 5 true], c.Relevant 7 ∧
      c.decision.deny = false ∧
      ∀ c' ∈ [ConnectionCall.setUidWildcard true 3, .addUid 7 false 5 true], c'.Relevant 7 →
        c'.decision.priority ≤ c.decision.priority :=
  ⟨rfl, rfl, by decide, by decide⟩

/-- Ties: whatever the priorities, the check of a uid other than 0 decides by the
last decision of the highest priority among the uid wildcard and the gid wildcard,
in that order, so the gid wildcard wins a tie; no `add_uid` call changes it. -/
theorem connectionPolicyCheckAllowed_lastWins {calls : List ConnectionCall}
    {policy : ConnectionPolicy} (hrun : connectionRun calls connectionPolicyInit = .ok policy)
    {u : UInt32} (hu : u ≠ 0) :
    ∃ D, connectionPolicyCheckAllowed policy u = (if D.deny then POLICY_E_ACCESS_DENIED else 0) ∧
      LastWins (connectionWildcardDecisions calls) D :=
  ⟨_, (connectionRun_holds hrun).checkAllowed_eq hu, lastWins_foldl_update _⟩

theorem connectionPolicyCheckAllowed_lastWins_gid :
    connectionRun [.setGidWildcard false 5, .setUidWildcard true 5, .addUid 7 true 9 true]
        connectionPolicyInit =
      .ok ⟨.node .nil ⟨0, ⟨true, 9⟩⟩ .nil, .nil, ⟨true, 5⟩, ⟨false, 5⟩⟩ ∧ (7 : UInt32) ≠ 0 ∧
    (∃ D, connectionPolicyCheckAllowed ⟨.node .nil ⟨0, ⟨true, 9⟩⟩ .nil, .nil, ⟨true, 5⟩, ⟨false, 5⟩⟩ 7 =
        (if D.deny then POLICY_E_ACCESS_DENIED else 0) ∧
      LastWins (connectionWildcardDecisions
        [.setGidWildcard false 5, .setUidWildcard true 5, .addUid 7 true 9 true]) D) ∧
    connectionPolicyCheckAllowed ⟨.node .nil ⟨0, ⟨true, 9⟩⟩ .nil, .nil, ⟨true, 5⟩, ⟨false, 5⟩⟩ 7 = 0 := by
  refine ⟨?run, ?hu, connectionPolicyCheckAllowed_lastWins ?run ?hu, rfl⟩
  · rfl
  · decide

/-- With distinct priorities, the check of a uid other than 0 denies exactly when,
among the wildcard calls that count, the one of highest priority denies. -/
theorem connectionPolicyCheckAllowed_eq {calls : List ConnectionCall} {policy : ConnectionPolicy}
    (hrun : connectionRun calls connectionPolicyInit = .ok policy)
    (hprio : (calls.map fun c => c.decision.priority).Nodup) {u : UInt32} (hu : u ≠ 0) :
    connectionPolicyCheckAllowed policy u = if ∃ c ∈ calls, c.WildcardCounts ∧
      c.decision.deny = true ∧ ∀ c' ∈ calls, c'.WildcardCounts → c'.decision.priority ≤ c.decision.priority
      then POLICY_E_ACCESS_DENIED else 0 := by
  rw [(connectionRun_holds hrun).checkAllowed_eq hu,
    (connectionWildcardDecisions_decides calls).ite_deny hprio]

theorem connectionPolicyCheckAllowed_allow_seven :
    connectionRun [.setGidWildcard false 4, .setUidWildcard true 3, .addUid 7 true 9 true]
        connectionPolicyInit =
      .ok ⟨.node .nil ⟨0, ⟨true, 9⟩⟩ .nil, .nil, ⟨true, 3⟩, ⟨false, 4⟩⟩ ∧
    ([ConnectionCall.setGidWildcard false 4, .setUidWildcard true 3, .addUid 7 true 9 true].map
      fun c => c.decision.priority).Nodup ∧ (7 : UInt32) ≠ 0 ∧
    connectionPolicyCheckAllowed ⟨.node .nil ⟨0, ⟨true, 9⟩⟩ .nil, .nil, ⟨true, 3⟩, ⟨false, 4⟩⟩ 7 = 0 := by
  refine ⟨?run, ?prio, ?hu, ?_⟩
  · rfl
  · decide
  · decide
  · rw [connectionPolicyCheckAllowed_eq ?run ?prio ?hu, if_neg (by decide)]

/-! ## The order of the calls -/

/-- With pairwise distinct priorities, two runs of the same calls in two orders
answer the check of every uid other than 0 alike. -/
theorem connectionPolicyCheckAllowed_perm {calls calls' : List ConnectionCall}
    {p p' : ConnectionPolicy} (hrun : connectionRun calls connectionPolicyInit = .ok p)
    (hrun' : connectionRun calls' connectionPolicyInit = .ok p') (hperm : calls.Perm calls')
    (hprio : (calls.map fun c => c.decision.priority).Nodup) {u : UInt32} (hu : u ≠ 0) :
    connectionPolicyCheckAllowed p u = connectionPolicyCheckAllowed p' u := by
  rw [(connectionRun_holds hrun).checkAllowed_eq hu, (connectionRun_holds hrun').checkAllowed_eq hu,
    (connectionWildcardDecisions_decides calls).unique
      ((connectionWildcardDecisions_decides calls').perm hperm.symm) hprio]

theorem connectionPolicyCheckAllowed_perm_seven :
    connectionRun [.setUidWildcard true 3, .setGidWildcard false 5] connectionPolicyInit =
      .ok ⟨.nil, .nil, ⟨true, 3⟩, ⟨false, 5⟩⟩ ∧
    connectionRun [.setGidWildcard false 5, .setUidWildcard true 3] connectionPolicyInit =
      .ok ⟨.nil, .nil, ⟨true, 3⟩, ⟨false, 5⟩⟩ ∧
    [ConnectionCall.setUidWildcard true 3, .setGidWildcard false 5].Perm
      [.setGidWildcard false 5, .setUidWildcard true 3] ∧
    ([ConnectionCall.setUidWildcard true 3, .setGidWildcard false 5].map
      fun c => c.decision.priority).Nodup ∧ (7 : UInt32) ≠ 0 ∧
    connectionPolicyCheckAllowed ⟨.nil, .nil, ⟨true, 3⟩, ⟨false, 5⟩⟩ 7 =
      connectionPolicyCheckAllowed ⟨.nil, .nil, ⟨true, 3⟩, ⟨false, 5⟩⟩ 7 := by
  refine ⟨?run, ?run', ?perm, ?prio, ?hu,
    connectionPolicyCheckAllowed_perm ?run ?run' ?perm ?prio ?hu⟩
  · rfl
  · rfl
  · exact .swap _ _ _
  · decide
  · decide

/-! ## One more call -/

theorem update_update_of_priority_zero (u g : PolicyDecision) {x : PolicyDecision}
    (hx : x.priority = 0) : (u.update x).update g = u.update g := by
  by_cases hu : x.priority < u.priority
  · rw [show u.update x = u from if_pos hu]
  · have h0 : u.priority = 0 := by
      rw [hx, prio_lt_iff, UInt64.toNat_zero] at hu
      exact prio_eq_iff.mpr (by rw [UInt64.toNat_zero]; omega)
    have hg : ∀ d : PolicyDecision, d.priority = 0 → d.update g = g := fun d hd =>
      if_neg (by rw [hd, prio_lt_iff, UInt64.toNat_zero]; omega)
    rw [show u.update x = x from if_neg hu, hg x hx, hg u h0]

theorem connectionWildcardDecisions_snoc (calls : List ConnectionCall) (c : ConnectionCall) :
    Raises c.decision (connectionWildcardDecisions calls) (connectionWildcardDecisions (calls ++ [c])) ∧
      (¬ c.WildcardCounts → (connectionWildcardDecisions (calls ++ [c])).foldl update neutral =
        (connectionWildcardDecisions calls).foldl update neutral) := by
  cases c <;> simp only [connectionWildcardDecisions, filterMap_snoc, uidWildcardRule,
    gidWildcardRule, Option.toList_some, Option.toList_none, List.append_nil, List.foldl_append,
    List.foldl_cons, List.foldl_nil]
  case addUid | addGid => exact ⟨.refl _, fun _ => trivial⟩
  case setUidWildcard deny priority =>
    refine ⟨.update_cons _ _, fun hM => ?_⟩
    -- at priority 0 the uid wildcard never outranks the gid wildcard
    rw [neutral_update, neutral_update, update_update_of_priority_zero _ _
      (show (⟨deny, priority⟩ : PolicyDecision).priority = 0 from not_not.mp hM)]
  case setGidWildcard => exact ⟨.keep _ (.update_cons _ _), fun hM => absurd trivial hM⟩

/-- A call that returns 0, made on a policy any run built, changes the check of a uid
other than 0 only if it is a wildcard call that counts, and then only to the call's
own answer. -/
theorem connectionPolicyCheckAllowed_snoc {calls : List ConnectionCall} {p p' : ConnectionPolicy}
    (hrun : connectionRun calls connectionPolicyInit = .ok p) {c : ConnectionCall}
    (happ : c.apply p = (0, p')) {u : UInt32} (hu : u ≠ 0) :
    connectionPolicyCheckAllowed p' u = connectionPolicyCheckAllowed p u ∨
      c.WildcardCounts ∧
        connectionPolicyCheckAllowed p' u = if c.decision.deny then POLICY_E_ACCESS_DENIED else 0 := by
  have h := connectionRun_holds hrun
  rw [h.checkAllowed_eq hu, (connectionHolds_step h happ).checkAllowed_eq hu]
  obtain ⟨hraise, hsame⟩ := connectionWildcardDecisions_snoc calls c
  by_cases hM : c.WildcardCounts
  · rcases hraise.foldl_update_neutral with heq | heq
    · exact Or.inl (by rw [heq])
    · exact Or.inr ⟨hM, by rw [heq]⟩
  · exact Or.inl (by rw [hsame hM])

theorem connectionPolicyCheckAllowed_snoc_seven :
    connectionRun [.setGidWildcard true 3] connectionPolicyInit =
      .ok ⟨.nil, .nil, neutral, ⟨true, 3⟩⟩ ∧
    (ConnectionCall.setUidWildcard false 5).apply ⟨.nil, .nil, neutral, ⟨true, 3⟩⟩ =
      (0, ⟨.nil, .nil, ⟨false, 5⟩, ⟨true, 3⟩⟩) ∧ (7 : UInt32) ≠ 0 ∧
    (connectionPolicyCheckAllowed ⟨.nil, .nil, ⟨false, 5⟩, ⟨true, 3⟩⟩ 7 =
        connectionPolicyCheckAllowed ⟨.nil, .nil, neutral, ⟨true, 3⟩⟩ 7 ∨
      (ConnectionCall.setUidWildcard false 5).WildcardCounts ∧
        connectionPolicyCheckAllowed ⟨.nil, .nil, ⟨false, 5⟩, ⟨true, 3⟩⟩ 7 =
          if (ConnectionCall.setUidWildcard false 5).decision.deny then POLICY_E_ACCESS_DENIED
          else 0) := by
  refine ⟨?run, ?step, ?hu, connectionPolicyCheckAllowed_snoc ?run ?step ?hu⟩
  · rfl
  · rfl
  · decide

/-! ## Failed calls -/

theorem ConnectionCall.apply_error {c : ConnectionCall} {p p' : ConnectionPolicy} {r : Int}
    (happ : c.apply p = (r, p')) (hr : r ≠ 0) : p' = p := by
  cases c with
  | addUid id deny priority alloc | addGid id deny priority alloc =>
    simp only [apply, connectionPolicyAddUid, connectionPolicyAddGid,
      connectionPolicyAddEntry] at happ
    obtain ⟨rfl, rfl⟩ := Prod.mk.inj happ
    rw [policyAddEntry_error _ (connectionPolicyEntryNew_error _ _ _ _ _) Prod.mk.eta.symm hr]
  | setUidWildcard deny priority | setGidWildcard deny priority =>
    exact absurd (Prod.mk.inj happ).1.symm hr

/-- Failed calls change nothing: a run that goes on past failed calls ends on the
policy the run of its successful calls alone builds, so every theorem about runs
holds of it, for those calls. -/
theorem connectionRun_runAllCalls (calls : List ConnectionCall) :
    connectionRun (runAllCalls ConnectionCall.apply calls connectionPolicyInit).2 connectionPolicyInit =
      .ok (runAllCalls ConnectionCall.apply calls connectionPolicyInit).1 :=
  runCalls_runAllCalls ConnectionCall.apply_error calls connectionPolicyInit

end DbusBroker
