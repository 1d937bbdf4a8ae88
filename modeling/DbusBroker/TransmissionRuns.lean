import DbusBroker.Transmission

/- Runs of the transmission policy: what a policy built by any sequence of
   `tranmsission_policy_add_entry` calls holds and answers.

   A `TransmissionCall` carries the call's arguments and what its `malloc` calls
   return. The code is right only in memory as it assumes it (`TransmissionCall.Clean`):
   every entry's `error` and `path` fields NULL when `malloc` returns it, and a NUL
   right after every name it copies. In such memory `TransmissionHolds` ties the
   policy to its calls: one node per name, holding that name's rules in call order,
   and the wildcard list holding the rules of the calls without a name.

   What is proved:
     1. `transmissionRun_holds` — every policy a run of clean calls builds satisfies
        `TransmissionHolds` (one step: `transmissionHolds_step`), and so
        `transmissionRun_stores`: one node per name, found by exactly its name.
     2. `transmissionPolicyCheckAllowed_eq` — in clean memory, with distinct
        priorities, the check denies exactly when the highest-priority call whose
        rule applies to the subject and the request (`TransmissionCall.Matches`) is
        a deny.
     3. `transmissionPolicyCheckAllowed_lastWins` — whatever the priorities, the check
        decides by the last highest-priority admitted rule in the order it merges
        them: the subject's names in turn, then the wildcard rules.
     4. `transmissionPolicyCheckAllowed_unnamed_fields` — in clean memory, a request
        field that no call names does not change the check's answer.
     5. `transmissionPolicyCheckAllowed_stale_error` — in memory whose `error` field
        is not NULL, a deny rule that names no field no longer applies to a request
        without an error.
     6. `tranmsissionPolicyAddEntry_unterminated_name` — in memory where the byte
        after a copied name is not NUL, two calls for one name make two nodes.
     7. `transmissionPolicyCheckAllowed_perm` — in clean memory, with distinct
        priorities, the order of the calls does not change the checks.
     8. `transmissionPolicyCheckAllowed_snoc` — in clean memory, one more call
        changes the check of a request only if its rule applies to the subject's
        request, and then to the call's own answer.

   The checks are proved of `TransmissionCovers`, which `TransmissionHolds` implies
   and which also holds after runs that go on past failed calls
   (`DbusBroker.TransmissionFailures`).
-/

namespace DbusBroker

open PolicyDecision CRBTree

/-- A call of `tranmsission_policy_add_entry`, with what its `malloc` calls return. -/
structure TransmissionCall where
  name : Option CStr
  interface : Option CStr
  member : Option CStr
  error : Option CStr
  path : Option CStr
  type : Int
  deny : Bool
  priority : UInt64
  alloc : TransmissionAlloc

namespace TransmissionCall

/-- What the call does to the policy. -/
def apply (c : TransmissionCall) (policy : TransmissionPolicy) : Int × TransmissionPolicy :=
  tranmsissionPolicyAddEntry policy c.name c.interface c.member c.error c.path c.type c.deny
    c.priority c.alloc

/-- The decision of the call's rule. -/
def decision (c : TransmissionCall) : PolicyDecision := ⟨c.deny, c.priority⟩

/-- The rule the call adds, as its arguments give it. -/
def rule (c : TransmissionCall) : TransmissionRule :=
  ⟨c.interface, c.member, c.error, c.path, c.type, c.decision⟩

/-- The rule of a call with a name, under that name. -/
def namedRule (c : TransmissionCall) : Option (CStr × TransmissionRule) :=
  c.name.map (·, c.rule)

/-- The rule of a call without a name. -/
def wildcardRule (c : TransmissionCall) : Option TransmissionRule :=
  match c.name with
  | none => some c.rule
  | some _ => none

/-- Memory as the code assumes it: `malloc` returns entries whose `error` and `path`
fields are NULL, and a NUL follows every name it copies. -/
def Clean (c : TransmissionCall) : Prop :=
  (∀ mem ∈ c.alloc.entry, mem.error = .null ∧ mem.path = .null) ∧
    ∀ after ∈ c.alloc.byName, after = CStr.empty

/-- Whether a rule's field admits the request's, as the spec says: an absent field
admits any, a present one only a present, byte-equal one. -/
def FieldMatches (rule request : Option CStr) : Prop := rule = none ∨ rule = request

instance (rule request : Option CStr) : Decidable (FieldMatches rule request) :=
  inferInstanceAs (Decidable (_ ∨ _))

/-- The names the subject primary-owns; "org.freedesktop.DBus" for the driver. -/
def primaryNames : Option (List NameOwnership) → List CStr
  | none => [driverName]
  | some ownershipTree => (ownershipTree.filter (·.primary)).map (·.name)

/-- Whether the call's rule applies to the subject's request, as the spec says: it
names no peer or a name the subject primary-owns, each field it gives is the
request's, and its type is 0 or the request's. -/
def Matches (subject : Option (List NameOwnership)) (interface member error path : Option CStr)
    (type : Int) (c : TransmissionCall) : Prop :=
  (c.name = none ∨ ∃ n ∈ primaryNames subject, c.name = some n) ∧
    FieldMatches c.interface interface ∧ FieldMatches c.member member ∧
    FieldMatches c.error error ∧ FieldMatches c.path path ∧ (c.type = 0 ∨ c.type = type)

instance (subject : Option (List NameOwnership)) (interface member error path : Option CStr)
    (type : Int) : DecidablePred (Matches subject interface member error path type) :=
  fun _ => inferInstanceAs (Decidable (_ ∧ _))

end TransmissionCall

open TransmissionCall

/-- The calls in order from `policy`, stopping at the first that returns an error. -/
def transmissionRun : List TransmissionCall → TransmissionPolicy → Except Int TransmissionPolicy :=
  runCalls TransmissionCall.apply

/-! ## What a policy holds -/

/-- A policy and the calls that built it: the tree is ordered by name and holds one
node for each name the calls gave, with that name's rules in call order, and the
wildcard list holds the rules of the calls without a name. -/
structure TransmissionHolds (policy : TransmissionPolicy) (calls : List TransmissionCall) :
    Prop where
  names : KeyedHolds id TransmissionPolicyByName.name (fun rules b => b.entryList.map (·.rule) = rules)
    policy.policyByNameTree (calls.filterMap namedRule)
  wildcard : policy.wildcardEntryList.map (·.rule) = calls.filterMap wildcardRule

/-- A policy and the successful calls of a run that may have gone on past failed
calls: as `TransmissionHolds`, but the tree may also hold nodes with no entries that
failed calls left. -/
structure TransmissionCovers (policy : TransmissionPolicy) (calls : List TransmissionCall) :
    Prop where
  names : KeyedCovers id TransmissionPolicyByName.name
    (fun rules b => b.entryList.map (·.rule) = rules) policy.policyByNameTree
    (calls.filterMap namedRule)
  wildcard : policy.wildcardEntryList.map (·.rule) = calls.filterMap wildcardRule

theorem TransmissionHolds.toCovers {p : TransmissionPolicy} {calls : List TransmissionCall}
    (h : TransmissionHolds p calls) : TransmissionCovers p calls :=
  ⟨h.names.toCovers, h.wildcard⟩

theorem transmissionPolicyByNameCompare_agrees (name : CStr) :
    Agrees (·.name) (transmissionPolicyByNameCompare name) name := fun b =>
  ⟨strcmp_neg_iff name b.name, strcmp_eq_zero_iff name b.name⟩

theorem entryNew_clean {c : TransmissionCall} (hc : c.Clean) {l l' : List TransmissionPolicyEntry}
    (h : transmissionPolicyEntryNew l c.interface c.member c.error c.path c.type c.deny c.priority
      c.alloc.entry = (0, l')) : l'.map (·.rule) = l.map (·.rule) ++ [c.rule] := by
  cases hmem : c.alloc.entry with
  | none => rw [hmem] at h; cases h
  | some mem =>
    obtain ⟨herror, hpath⟩ := hc.1 mem hmem
    obtain ⟨e, he, hi, hm, her, hp, ht, hd⟩ :=
      transmissionPolicyEntryNew_read l c.interface c.member c.error c.path c.type c.deny c.priority
        herror hpath
    rw [hmem, he, Prod.mk.injEq] at h
    rw [← h.2, List.map_append, List.map_singleton]
    simp [TransmissionPolicyEntry.rule, rule, decision, hi, hm, her, hp, ht, hd]

theorem transmissionHolds_init : TransmissionHolds transmissionPolicyInit [] :=
  ⟨keyedHolds_nil, rfl⟩

theorem transmissionHolds_step {p p' : TransmissionPolicy} {cs : List TransmissionCall}
    {c : TransmissionCall} (h : TransmissionHolds p cs) (hc : c.Clean)
    (happ : c.apply p = (0, p')) : TransmissionHolds p' (cs ++ [c]) := by
  unfold TransmissionCall.apply tranmsissionPolicyAddEntry at happ
  cases hname : c.name with
  | none =>
    simp only [hname] at happ
    rcases hnew : transmissionPolicyEntryNew p.wildcardEntryList c.interface c.member c.error c.path
      c.type c.deny c.priority c.alloc.entry with ⟨r, l⟩
    rw [hnew, Prod.mk.injEq] at happ
    obtain ⟨rfl, rfl⟩ := happ
    have hnamed : (cs ++ [c]).filterMap namedRule = cs.filterMap namedRule := by
      simp [namedRule, hname]
    refine ⟨hnamed ▸ h.names, ?_⟩
    simp [entryNew_clean hc hnew, h.wildcard, wildcardRule, hname]
  | some name =>
    have hnamed : (cs ++ [c]).filterMap namedRule = cs.filterMap namedRule ++ [(name, c.rule)] := by
      simp [namedRule, hname]
    have hwild : (cs ++ [c]).filterMap wildcardRule = cs.filterMap wildcardRule := by
      simp [wildcardRule, hname]
    have hcmp := transmissionPolicyByNameCompare_agrees name
    simp only [hname] at happ
    split at happ
    · next b hfind =>
      obtain ⟨L, hL⟩ : ∃ L, transmissionPolicyEntryNew b.entryList c.interface c.member c.error
          c.path c.type c.deny c.priority c.alloc.entry = (0, L) :=
        ⟨_, Prod.ext (Prod.mk.inj happ).1 rfl⟩
      simp only [hL] at happ
      obtain ⟨-, rfl⟩ := Prod.mk.inj happ
      obtain ⟨hb, hbn⟩ := (findEntry_eq_some_iff hcmp h.names.ordered).mp hfind
      refine ⟨hnamed ▸ h.names.modify Function.injective_id hcmp (fun _ => rfl) (by simp [hfind])
        fun _ _ _ => ?_, by simpa [hwild] using h.wildcard⟩
      rw [entryNew_clean hc hL, h.names.content b hb, hbn]
    · next hfind =>
      split at happ
      · exact absurd (Prod.mk.inj happ).1 (by decide)
      · next after hafter =>
        obtain ⟨L, hL⟩ : ∃ L, transmissionPolicyEntryNew (transmissionPolicyByNameNew name after).entryList
            c.interface c.member c.error c.path c.type c.deny c.priority c.alloc.entry = (0, L) :=
          ⟨_, Prod.ext (Prod.mk.inj happ).1 rfl⟩
        simp only [hL] at happ
        obtain ⟨-, rfl⟩ := Prod.mk.inj happ
        obtain rfl := hc.2 after hafter
        refine ⟨hnamed ▸ h.names.add hcmp hfind (by simp [transmissionPolicyByNameNew]) ?_,
          by simpa [hwild] using h.wildcard⟩
        simpa [transmissionPolicyByNameNew] using entryNew_clean hc hL

theorem transmissionRun_holds {calls : List TransmissionCall} {p : TransmissionPolicy}
    (hrun : transmissionRun calls transmissionPolicyInit = .ok p) (hclean : ∀ c ∈ calls, c.Clean) :
    TransmissionHolds p calls := by
  have := runCalls_induction (fun p cs => (∀ c ∈ cs, c.Clean) → TransmissionHolds p cs)
    (fun h happ hcl => transmissionHolds_step (h fun c hc => hcl c (by simp [hc]))
      (hcl _ (by simp)) happ) (fun _ => transmissionHolds_init) hrun
  simpa using this (by simpa using hclean)

/-! ## The check -/

@[simp] theorem TransmissionCall.rule_decision (c : TransmissionCall) :
    c.rule.decision = c.decision := rfl

theorem TransmissionCall.namedRule_eq_some {c : TransmissionCall} {n : CStr}
    {r : TransmissionRule} : c.namedRule = some (n, r) ↔ c.name = some n ∧ c.rule = r := by
  cases hc : c.name <;> simp [namedRule, hc, eq_comm]

theorem TransmissionCall.wildcardRule_eq_some {c : TransmissionCall} {r : TransmissionRule} :
    c.wildcardRule = some r ↔ c.name = none ∧ c.rule = r := by
  cases hc : c.name <;> simp [wildcardRule, hc]

theorem fieldSkips_eq_false_iff (rule request : Option CStr) :
    fieldSkips rule request = false ↔ FieldMatches rule request := by
  cases rule <;> cases request <;> simp [fieldSkips, FieldMatches, strcmp_eq_zero_iff]

theorem TransmissionCall.admits_rule_iff (c : TransmissionCall)
    (interface member error path : Option CStr) (type : Int) :
    c.rule.admits interface member error path type = true ↔
      FieldMatches c.interface interface ∧ FieldMatches c.member member ∧
        FieldMatches c.error error ∧ FieldMatches c.path path ∧ (c.type = 0 ∨ c.type = type) := by
  simp only [TransmissionRule.admits, rule, Bool.and_eq_true, Bool.not_eq_true',
    fieldSkips_eq_false_iff, Bool.or_eq_true, beq_iff_eq, and_assoc]

theorem mem_admitted {rules : List TransmissionRule} {interface member error path : Option CStr}
    {type : Int} {d : PolicyDecision} : d ∈ admitted rules interface member error path type ↔
      ∃ r ∈ rules, r.admits interface member error path type = true ∧ r.decision = d := by
  simp [admitted, and_assoc]

theorem TransmissionCovers.updateDecisionByName {p : TransmissionPolicy}
    {calls : List TransmissionCall} (h : TransmissionCovers p calls) (name : CStr)
    (interface member error path : Option CStr) (type : Int) (d : PolicyDecision) :
    transmissionPolicyUpdateDecisionByName p.policyByNameTree name interface member error path type
      d = (admitted (rulesFor (calls.filterMap namedRule) name) interface member error path
        type).foldl update d := by
  have hcmp := transmissionPolicyByNameCompare_agrees name
  unfold transmissionPolicyUpdateDecisionByName
  split
  · next hfind =>
    rw [h.names.rulesFor_eq_nil ((findEntry_eq_none_iff hcmp h.names.ordered).mp hfind)]
    rfl
  · next b hfind =>
    obtain ⟨hb, rfl⟩ := (findEntry_eq_some_iff hcmp h.names.ordered).mp hfind
    rw [transmissionPolicyUpdateDecision_eq, h.names.content b hb]

/-- The decisions a check of the subject's request merges in, in order: the admitted
rules of each name it primary-owns, then the admitted wildcard rules. -/
def checkedDecisions (calls : List TransmissionCall) (subject : Option (List NameOwnership))
    (interface member error path : Option CStr) (type : Int) : List PolicyDecision :=
  (primaryNames subject).flatMap (fun n =>
      admitted (rulesFor (calls.filterMap namedRule) n) interface member error path type) ++
    admitted (calls.filterMap wildcardRule) interface member error path type

/-- In a policy that `TransmissionCovers`, the check folds `update` over
`checkedDecisions`. -/
theorem TransmissionCovers.checkAllowed_eq {p : TransmissionPolicy}
    {calls : List TransmissionCall} (h : TransmissionCovers p calls)
    (subject : Option (List NameOwnership)) (interface member error path : Option CStr)
    (type : Int) :
    transmissionPolicyCheckAllowed p subject interface member error path type =
      if ((checkedDecisions calls subject interface member error path type).foldl update
        neutral).deny then POLICY_E_ACCESS_DENIED else 0 := by
  have hsubject : ∀ (os : List NameOwnership) (d : PolicyDecision),
      os.foldl (fun decision ownership => if ownership.primary then
        transmissionPolicyUpdateDecisionByName p.policyByNameTree ownership.name interface member
          error path type decision else decision) d =
      ((primaryNames (some os)).flatMap fun n => admitted (rulesFor (calls.filterMap namedRule) n)
        interface member error path type).foldl update d := by
    intro os
    induction os with
    | nil => intro d; rfl
    | cons o os ih =>
      intro d
      rw [List.foldl_cons, ih]
      by_cases ho : o.primary <;> simp [primaryNames, ho, h.updateDecisionByName, List.filter_cons]
  cases subject with
  | none =>
    simp [transmissionPolicyCheckAllowed, checkedDecisions, primaryNames, List.foldl_append,
      transmissionPolicyUpdateDecision_eq, h.wildcard, h.updateDecisionByName]
  | some os =>
    simp only [transmissionPolicyCheckAllowed, checkedDecisions, List.foldl_append,
      transmissionPolicyUpdateDecision_eq, h.wildcard, hsubject]

theorem TransmissionHolds.checkAllowed_eq {p : TransmissionPolicy}
    {calls : List TransmissionCall} (h : TransmissionHolds p calls)
    (subject : Option (List NameOwnership)) (interface member error path : Option CStr)
    (type : Int) :
    transmissionPolicyCheckAllowed p subject interface member error path type =
      if ((checkedDecisions calls subject interface member error path type).foldl update
        neutral).deny then POLICY_E_ACCESS_DENIED else 0 :=
  h.toCovers.checkAllowed_eq subject interface member error path type

theorem checkedDecisions_decides (calls : List TransmissionCall)
    (subject : Option (List NameOwnership)) (interface member error path : Option CStr)
    (type : Int) :
    Decides decision calls (Matches subject interface member error path type)
      ((checkedDecisions calls subject interface member error path type).foldl update neutral) := by
  refine decides_foldl_update (fun g hg => ?_) (fun c hc hM => ?_)
  · rcases List.mem_append.mp hg with hg | hg
    · obtain ⟨n, hn, hg⟩ := List.mem_flatMap.mp hg
      obtain ⟨r, hr, hra, rfl⟩ := mem_admitted.mp hg
      obtain ⟨c, hc, hcr⟩ := List.mem_filterMap.mp (mem_rulesFor.mp hr)
      obtain ⟨hcn, rfl⟩ := namedRule_eq_some.mp hcr
      exact ⟨c, hc, ⟨Or.inr ⟨n, hn, hcn⟩, (admits_rule_iff c ..).mp hra⟩, rfl⟩
    · obtain ⟨r, hr, hra, rfl⟩ := mem_admitted.mp hg
      obtain ⟨c, hc, hcr⟩ := List.mem_filterMap.mp hr
      obtain ⟨hcn, rfl⟩ := wildcardRule_eq_some.mp hcr
      exact ⟨c, hc, ⟨Or.inl hcn, (admits_rule_iff c ..).mp hra⟩, rfl⟩
  · obtain ⟨hname, hfields⟩ := hM
    have hadm := (admits_rule_iff c ..).mpr hfields
    refine ⟨c.decision, List.mem_append.mpr ?_, UInt64.le_refl _⟩
    rcases hname with hcn | ⟨n, hn, hcn⟩
    · exact Or.inr (mem_admitted.mpr ⟨c.rule,
        List.mem_filterMap.mpr ⟨c, hc, wildcardRule_eq_some.mpr ⟨hcn, rfl⟩⟩, hadm, rfl⟩)
    · exact Or.inl (List.mem_flatMap.mpr ⟨n, hn, mem_admitted.mpr ⟨c.rule, mem_rulesFor.mpr
        (List.mem_filterMap.mpr ⟨c, hc, namedRule_eq_some.mpr ⟨hcn, rfl⟩⟩), hadm, rfl⟩⟩)

theorem transmissionPolicyCheckAllowed_decides {p : TransmissionPolicy}
    {calls : List TransmissionCall} (h : TransmissionCovers p calls)
    (subject : Option (List NameOwnership)) (interface member error path : Option CStr)
    (type : Int) :
    ∃ D, transmissionPolicyCheckAllowed p subject interface member error path type =
        (if D.deny then POLICY_E_ACCESS_DENIED else 0) ∧
      Decides decision calls (Matches subject interface member error path type) D :=
  ⟨_, h.checkAllowed_eq subject interface member error path type,
    checkedDecisions_decides calls subject interface member error path type⟩

/-- In a policy a run of clean calls builds, with distinct priorities, the check denies
exactly when, among the calls whose rule applies to the subject's request, the one of
highest priority denies. -/
theorem transmissionPolicyCheckAllowed_eq {calls : List TransmissionCall}
    {policy : TransmissionPolicy} (hrun : transmissionRun calls transmissionPolicyInit = .ok policy)
    (hclean : ∀ c ∈ calls, c.Clean) (hprio : (calls.map fun c => c.decision.priority).Nodup)
    (subject : Option (List NameOwnership)) (interface member error path : Option CStr)
    (type : Int) :
    transmissionPolicyCheckAllowed policy subject interface member error path type =
      if ∃ c ∈ calls, c.Matches subject interface member error path type ∧
        c.decision.deny = true ∧ ∀ c' ∈ calls, c'.Matches subject interface member error path type →
          c'.decision.priority ≤ c.decision.priority
      then POLICY_E_ACCESS_DENIED else 0 := by
  obtain ⟨D, hcheck, hD⟩ := transmissionPolicyCheckAllowed_decides
    (transmissionRun_holds hrun hclean).toCovers subject interface member error path type
  rw [hcheck, hD.ite_deny hprio]

theorem transmissionPolicyCheckAllowed_deny_i :
    transmissionPolicyCheckAllowed ⟨.nil, [⟨[105, 0], .buffer 0, .null, .null, .null, 0, ⟨true, 3⟩⟩]⟩ none
      (some ⟨[105], by decide⟩) none none none 0 = POLICY_E_ACCESS_DENIED := by
  rw [transmissionPolicyCheckAllowed_eq (show transmissionRun [⟨none, some ⟨[105], by decide⟩, none,
      none, none, 0, true, 3, ⟨none, some ⟨.null, .null, fun _ => 0⟩⟩⟩] transmissionPolicyInit =
      .ok ⟨.nil, [⟨[105, 0], .buffer 0, .null, .null, .null, 0, ⟨true, 3⟩⟩]⟩ from rfl)
    (by simp [Clean]) (by decide), if_pos (by decide)]

/-- In a policy a run of clean calls builds, whatever the priorities, the
check decides by the last decision of the highest priority among `checkedDecisions`:
the admitted rules of each name the subject primary-owns, in the order it owns them
and each in call order, then the admitted wildcard rules in call order. At equal
priority a wildcard rule thus wins over a named one, whatever their call order. -/
theorem transmissionPolicyCheckAllowed_lastWins {calls : List TransmissionCall}
    {policy : TransmissionPolicy} (hrun : transmissionRun calls transmissionPolicyInit = .ok policy)
    (hclean : ∀ c ∈ calls, c.Clean) (subject : Option (List NameOwnership))
    (interface member error path : Option CStr) (type : Int) :
    ∃ D, transmissionPolicyCheckAllowed policy subject interface member error path type =
        (if D.deny then POLICY_E_ACCESS_DENIED else 0) ∧
      LastWins (checkedDecisions calls subject interface member error path type) D :=
  ⟨_, (transmissionRun_holds hrun hclean).checkAllowed_eq subject interface member error path type,
    lastWins_foldl_update _⟩

theorem transmissionPolicyCheckAllowed_lastWins_driver :
    transmissionRun [⟨none, none, none, none, none, 0, false, 5,
        ⟨none, some ⟨.null, .null, fun _ => 0⟩⟩⟩, ⟨some driverName, none, none, none, none, 0, true, 5,
        ⟨some CStr.empty, some ⟨.null, .null, fun _ => 0⟩⟩⟩] transmissionPolicyInit =
      .ok ⟨.node .nil ⟨driverName ++ CStr.empty, [⟨[], .null, .null, .null, .null, 0, ⟨true, 5⟩⟩]⟩ .nil,
        [⟨[], .null, .null, .null, .null, 0, ⟨false, 5⟩⟩]⟩ ∧
    (∀ c ∈ [(⟨none, none, none, none, none, 0, false, 5,
        ⟨none, some ⟨.null, .null, fun _ => 0⟩⟩⟩ : TransmissionCall), ⟨some driverName, none, none,
        none, none, 0, true, 5, ⟨some CStr.empty, some ⟨.null, .null, fun _ => 0⟩⟩⟩], c.Clean) ∧
    (∃ D, transmissionPolicyCheckAllowed ⟨.node .nil ⟨driverName ++ CStr.empty,
        [⟨[], .null, .null, .null, .null, 0, ⟨true, 5⟩⟩]⟩ .nil,
        [⟨[], .null, .null, .null, .null, 0, ⟨false, 5⟩⟩]⟩ none none none none none 0 =
        (if D.deny then POLICY_E_ACCESS_DENIED else 0) ∧
      LastWins (checkedDecisions [⟨none, none, none, none, none, 0, false, 5,
        ⟨none, some ⟨.null, .null, fun _ => 0⟩⟩⟩, ⟨some driverName, none, none, none, none, 0, true, 5,
        ⟨some CStr.empty, some ⟨.null, .null, fun _ => 0⟩⟩⟩] none none none none none 0) D) ∧
    transmissionPolicyCheckAllowed ⟨.node .nil ⟨driverName ++ CStr.empty,
      [⟨[], .null, .null, .null, .null, 0, ⟨true, 5⟩⟩]⟩ .nil,
      [⟨[], .null, .null, .null, .null, 0, ⟨false, 5⟩⟩]⟩ none none none none none 0 = 0 :=
  ⟨rfl, by simp [Clean], transmissionPolicyCheckAllowed_lastWins (by rfl) (by simp [Clean]) none none
    none none none 0, rfl⟩

/-! ## The order of the calls -/

/-- In clean memory, with pairwise distinct priorities, two runs of the same calls in two
orders answer every check alike, although the lists they build hold the entries in
different orders. -/
theorem transmissionPolicyCheckAllowed_perm {calls calls' : List TransmissionCall}
    {p p' : TransmissionPolicy} (hrun : transmissionRun calls transmissionPolicyInit = .ok p)
    (hrun' : transmissionRun calls' transmissionPolicyInit = .ok p') (hperm : calls.Perm calls')
    (hclean : ∀ c ∈ calls, c.Clean) (hprio : (calls.map fun c => c.decision.priority).Nodup)
    (subject : Option (List NameOwnership)) (interface member error path : Option CStr)
    (type : Int) :
    transmissionPolicyCheckAllowed p subject interface member error path type =
      transmissionPolicyCheckAllowed p' subject interface member error path type := by
  obtain ⟨D, hD, hdec⟩ := transmissionPolicyCheckAllowed_decides
    (transmissionRun_holds hrun hclean).toCovers subject interface member error path type
  obtain ⟨D', hD', hdec'⟩ := transmissionPolicyCheckAllowed_decides
    (transmissionRun_holds hrun' fun c hc => hclean c (hperm.mem_iff.mpr hc)).toCovers subject
    interface member error path type
  rw [hD, hD', hdec.unique (hdec'.perm hperm.symm) hprio]

theorem transmissionPolicyCheckAllowed_perm_wildcards :
    transmissionRun [⟨none, none, none, none, none, 0, false, 2,
        ⟨none, some ⟨.null, .null, fun _ => 0⟩⟩⟩, ⟨none, none, none, none, none, 0, true, 4,
        ⟨none, some ⟨.null, .null, fun _ => 0⟩⟩⟩] transmissionPolicyInit =
      .ok ⟨.nil, [⟨[], .null, .null, .null, .null, 0, ⟨false, 2⟩⟩,
        ⟨[], .null, .null, .null, .null, 0, ⟨true, 4⟩⟩]⟩ ∧
    transmissionRun [⟨none, none, none, none, none, 0, true, 4,
        ⟨none, some ⟨.null, .null, fun _ => 0⟩⟩⟩, ⟨none, none, none, none, none, 0, false, 2,
        ⟨none, some ⟨.null, .null, fun _ => 0⟩⟩⟩] transmissionPolicyInit =
      .ok ⟨.nil, [⟨[], .null, .null, .null, .null, 0, ⟨true, 4⟩⟩,
        ⟨[], .null, .null, .null, .null, 0, ⟨false, 2⟩⟩]⟩ ∧
    [(⟨none, none, none, none, none, 0, false, 2,
        ⟨none, some ⟨.null, .null, fun _ => 0⟩⟩⟩ : TransmissionCall), ⟨none, none, none, none, none,
        0, true, 4, ⟨none, some ⟨.null, .null, fun _ => 0⟩⟩⟩].Perm
      [⟨none, none, none, none, none, 0, true, 4, ⟨none, some ⟨.null, .null, fun _ => 0⟩⟩⟩,
        ⟨none, none, none, none, none, 0, false, 2, ⟨none, some ⟨.null, .null, fun _ => 0⟩⟩⟩] ∧
    (∀ c ∈ [(⟨none, none, none, none, none, 0, false, 2,
        ⟨none, some ⟨.null, .null, fun _ => 0⟩⟩⟩ : TransmissionCall), ⟨none, none, none, none, none,
        0, true, 4, ⟨none, some ⟨.null, .null, fun _ => 0⟩⟩⟩], c.Clean) ∧
    ([(⟨none, none, none, none, none, 0, false, 2,
        ⟨none, some ⟨.null, .null, fun _ => 0⟩⟩⟩ : TransmissionCall), ⟨none, none, none, none, none,
        0, true, 4, ⟨none, some ⟨.null, .null, fun _ => 0⟩⟩⟩].map
      fun c => c.decision.priority).Nodup ∧
    transmissionPolicyCheckAllowed ⟨.nil, [⟨[], .null, .null, .null, .null, 0, ⟨false, 2⟩⟩,
        ⟨[], .null, .null, .null, .null, 0, ⟨true, 4⟩⟩]⟩ none none none none none 0 =
      transmissionPolicyCheckAllowed ⟨.nil, [⟨[], .null, .null, .null, .null, 0, ⟨true, 4⟩⟩,
        ⟨[], .null, .null, .null, .null, 0, ⟨false, 2⟩⟩]⟩ none none none none none 0 := by
  refine ⟨?run, ?run', ?perm, ?clean, ?prio,
    transmissionPolicyCheckAllowed_perm ?run ?run' ?perm ?clean ?prio none none none none none 0⟩
  · rfl
  · rfl
  · exact .swap _ _ _
  · simp [Clean]
  · decide

/-! ## Fields no rule names -/

theorem fieldSkips_congr {field request request' : Option CStr}
    (h : field = none ∨ request = request') :
    fieldSkips field request = fieldSkips field request' := by
  rcases h with rfl | rfl <;> rfl

theorem TransmissionCall.admits_congr {c : TransmissionCall}
    {interface interface' member member' error error' path path' : Option CStr} {type : Int}
    (hi : c.interface = none ∨ interface = interface') (hm : c.member = none ∨ member = member')
    (he : c.error = none ∨ error = error') (hp : c.path = none ∨ path = path') :
    c.rule.admits interface member error path type =
      c.rule.admits interface' member' error' path' type := by
  simp only [TransmissionRule.admits, rule, fieldSkips_congr hi, fieldSkips_congr hm,
    fieldSkips_congr he, fieldSkips_congr hp]

theorem checkedDecisions_congr {calls : List TransmissionCall}
    {subject : Option (List NameOwnership)}
    {interface interface' member member' error error' path path' : Option CStr} {type : Int}
    (h : ∀ c ∈ calls, c.rule.admits interface member error path type =
      c.rule.admits interface' member' error' path' type) :
    checkedDecisions calls subject interface member error path type =
      checkedDecisions calls subject interface' member' error' path' type := by
  unfold checkedDecisions admitted
  congr 1
  · congr 1
    funext n
    rw [List.filter_congr fun r hr => ?_]
    obtain ⟨c, hc, hcr⟩ := List.mem_filterMap.mp (mem_rulesFor.mp hr)
    obtain ⟨-, rfl⟩ := namedRule_eq_some.mp hcr
    exact h c hc
  · rw [List.filter_congr fun r hr => ?_]
    obtain ⟨c, hc, hcr⟩ := List.mem_filterMap.mp hr
    obtain ⟨-, rfl⟩ := wildcardRule_eq_some.mp hcr
    exact h c hc

/-- In a policy a run of clean calls builds, a request field that no call names does not
change the check: two requests that differ only in fields every call leaves out get the
same answer. -/
theorem transmissionPolicyCheckAllowed_unnamed_fields {calls : List TransmissionCall}
    {policy : TransmissionPolicy} (hrun : transmissionRun calls transmissionPolicyInit = .ok policy)
    (hclean : ∀ c ∈ calls, c.Clean) (subject : Option (List NameOwnership))
    {interface interface' member member' error error' path path' : Option CStr} (type : Int)
    (hi : interface = interface' ∨ ∀ c ∈ calls, c.interface = none)
    (hm : member = member' ∨ ∀ c ∈ calls, c.member = none)
    (he : error = error' ∨ ∀ c ∈ calls, c.error = none)
    (hp : path = path' ∨ ∀ c ∈ calls, c.path = none) :
    transmissionPolicyCheckAllowed policy subject interface member error path type =
      transmissionPolicyCheckAllowed policy subject interface' member' error' path' type := by
  have h := transmissionRun_holds hrun hclean
  rw [h.checkAllowed_eq, h.checkAllowed_eq, checkedDecisions_congr fun c hc =>
    admits_congr (hi.symm.imp (· c hc) id) (hm.symm.imp (· c hc) id) (he.symm.imp (· c hc) id)
      (hp.symm.imp (· c hc) id)]

theorem transmissionPolicyCheckAllowed_unnamed_interface :
    transmissionRun [⟨none, none, some ⟨[109], by decide⟩, none, none, 0, true, 3,
        ⟨none, some ⟨.null, .null, fun _ => 0⟩⟩⟩] transmissionPolicyInit =
      .ok ⟨.nil, [⟨[109, 0], .null, .buffer 0, .null, .null, 0, ⟨true, 3⟩⟩]⟩ ∧
    (∀ c ∈ [(⟨none, none, some ⟨[109], by decide⟩, none, none, 0, true, 3,
        ⟨none, some ⟨.null, .null, fun _ => 0⟩⟩⟩ : TransmissionCall)], c.Clean) ∧
    (some ⟨[97], by decide⟩ = (some ⟨[98], by decide⟩ : Option CStr) ∨
      ∀ c ∈ [(⟨none, none, some ⟨[109], by decide⟩, none, none, 0, true, 3,
        ⟨none, some ⟨.null, .null, fun _ => 0⟩⟩⟩ : TransmissionCall)], c.interface = none) ∧
    transmissionPolicyCheckAllowed ⟨.nil, [⟨[109, 0], .null, .buffer 0, .null, .null, 0, ⟨true, 3⟩⟩]⟩
        none (some ⟨[97], by decide⟩) (some ⟨[109], by decide⟩) none none 0 =
      transmissionPolicyCheckAllowed ⟨.nil, [⟨[109, 0], .null, .buffer 0, .null, .null, 0, ⟨true, 3⟩⟩]⟩
        none (some ⟨[98], by decide⟩) (some ⟨[109], by decide⟩) none none 0 := by
  refine ⟨?run, ?clean, ?unnamed, transmissionPolicyCheckAllowed_unnamed_fields ?run ?clean none 0
    ?unnamed (Or.inl rfl) (Or.inl rfl) (Or.inl rfl)⟩
  · rfl
  · simp [Clean]
  · exact Or.inr (by simp)

/-! ## One more call -/

theorem admitted_snoc (rules : List TransmissionRule) (r : TransmissionRule)
    (interface member error path : Option CStr) (type : Int) :
    admitted (rules ++ [r]) interface member error path type =
      admitted rules interface member error path type ++
        if r.admits interface member error path type then [r.decision] else [] := by
  unfold admitted
  rw [List.filter_append]
  split <;> simp [*]

theorem checkedDecisions_snoc (calls : List TransmissionCall) (c : TransmissionCall)
    (subject : Option (List NameOwnership)) (interface member error path : Option CStr)
    (type : Int) :
    Raises c.decision (checkedDecisions calls subject interface member error path type)
        (checkedDecisions (calls ++ [c]) subject interface member error path type) ∧
      (¬ c.Matches subject interface member error path type →
        checkedDecisions (calls ++ [c]) subject interface member error path type =
          checkedDecisions calls subject interface member error path type) := by
  cases hname : c.name with
  | none =>
    simp only [checkedDecisions, filterMap_snoc, namedRule, wildcardRule, hname, Option.map_none',
      Option.toList_some, Option.toList_none, List.append_nil, admitted_snoc]
    refine ⟨.append (.refl _) (.snoc_ite _ _), fun hM => ?_⟩
    rw [if_neg fun ha => hM ⟨Or.inl hname, (admits_rule_iff c ..).mp ha⟩, List.append_nil]
  | some n₀ =>
    simp only [checkedDecisions, filterMap_snoc, namedRule, wildcardRule, hname, Option.map_some',
      Option.toList_some, Option.toList_none, List.append_nil]
    have hblock : ∀ n, admitted (rulesFor (calls.filterMap namedRule ++ [(n₀, c.rule)]) n) interface
        member error path type = admitted (rulesFor (calls.filterMap namedRule) n) interface member
          error path type ++
          if decide (n₀ = n) && c.rule.admits interface member error path type then [c.decision]
          else [] := fun n => by
      rw [rulesFor_append]
      split <;> simp [admitted_snoc, *]
    simp only [hblock]
    refine ⟨.append (.flatMap fun n _ => .snoc_ite _ _) (.refl _), fun hM => ?_⟩
    -- a name the subject owns, under which the rule admits the request, would make it apply
    refine congrArg (· ++ _) (List.flatMap_congr fun n hn' => ?_)
    rw [if_neg fun h => ?_, List.append_nil]
    simp only [Bool.and_eq_true, decide_eq_true_eq] at h
    exact hM ⟨Or.inr ⟨n, hn', h.1 ▸ hname⟩, (admits_rule_iff c ..).mp h.2⟩

/-- A clean call that returns 0, made on a policy a run of clean calls built, changes the
check of a request only if its rule applies to the subject's request, and then only to the
call's own answer: a deny never allows what was denied, an allow never denies what was
allowed. -/
theorem transmissionPolicyCheckAllowed_snoc {calls : List TransmissionCall}
    {p p' : TransmissionPolicy} (hrun : transmissionRun calls transmissionPolicyInit = .ok p)
    (hclean : ∀ c ∈ calls, c.Clean) {c : TransmissionCall} (hc : c.Clean) (happ : c.apply p = (0, p'))
    (subject : Option (List NameOwnership)) (interface member error path : Option CStr) (type : Int) :
    transmissionPolicyCheckAllowed p' subject interface member error path type =
        transmissionPolicyCheckAllowed p subject interface member error path type ∨
      c.Matches subject interface member error path type ∧
        transmissionPolicyCheckAllowed p' subject interface member error path type =
          if c.decision.deny then POLICY_E_ACCESS_DENIED else 0 := by
  have h := transmissionRun_holds hrun hclean
  rw [h.checkAllowed_eq, (transmissionHolds_step h hc happ).checkAllowed_eq]
  obtain ⟨hraise, hsame⟩ := checkedDecisions_snoc calls c subject interface member error path type
  by_cases hM : c.Matches subject interface member error path type
  · rcases hraise.foldl_update_neutral with heq | heq
    · exact Or.inl (by rw [heq])
    · exact Or.inr ⟨hM, by rw [heq]⟩
  · exact Or.inl (by rw [hsame hM])

theorem transmissionPolicyCheckAllowed_snoc_deny :
    transmissionRun [⟨none, none, none, none, none, 0, false, 2,
        ⟨none, some ⟨.null, .null, fun _ => 0⟩⟩⟩] transmissionPolicyInit =
      .ok ⟨.nil, [⟨[], .null, .null, .null, .null, 0, ⟨false, 2⟩⟩]⟩ ∧
    (∀ c ∈ [(⟨none, none, none, none, none, 0, false, 2,
        ⟨none, some ⟨.null, .null, fun _ => 0⟩⟩⟩ : TransmissionCall)], c.Clean) ∧
    (⟨none, none, none, none, none, 0, true, 4,
        ⟨none, some ⟨.null, .null, fun _ => 0⟩⟩⟩ : TransmissionCall).Clean ∧
    (⟨none, none, none, none, none, 0, true, 4,
        ⟨none, some ⟨.null, .null, fun _ => 0⟩⟩⟩ : TransmissionCall).apply
        ⟨.nil, [⟨[], .null, .null, .null, .null, 0, ⟨false, 2⟩⟩]⟩ =
      (0, ⟨.nil, [⟨[], .null, .null, .null, .null, 0, ⟨false, 2⟩⟩,
        ⟨[], .null, .null, .null, .null, 0, ⟨true, 4⟩⟩]⟩) ∧
    (transmissionPolicyCheckAllowed ⟨.nil, [⟨[], .null, .null, .null, .null, 0, ⟨false, 2⟩⟩,
          ⟨[], .null, .null, .null, .null, 0, ⟨true, 4⟩⟩]⟩ none none none none none 0 =
        transmissionPolicyCheckAllowed ⟨.nil, [⟨[], .null, .null, .null, .null, 0, ⟨false, 2⟩⟩]⟩
          none none none none none 0 ∨
      (⟨none, none, none, none, none, 0, true, 4,
          ⟨none, some ⟨.null, .null, fun _ => 0⟩⟩⟩ : TransmissionCall).Matches none none none none
          none 0 ∧
        transmissionPolicyCheckAllowed ⟨.nil, [⟨[], .null, .null, .null, .null, 0, ⟨false, 2⟩⟩,
            ⟨[], .null, .null, .null, .null, 0, ⟨true, 4⟩⟩]⟩ none none none none none 0 =
          if (⟨none, none, none, none, none, 0, true, 4,
            ⟨none, some ⟨.null, .null, fun _ => 0⟩⟩⟩ : TransmissionCall).decision.deny
          then POLICY_E_ACCESS_DENIED else 0) := by
  refine ⟨?run, ?clean, ?cleanCall, ?step,
    transmissionPolicyCheckAllowed_snoc ?run ?clean ?cleanCall ?step none none none none none 0⟩
  · rfl
  · simp [Clean]
  · simp [Clean]
  · rfl

/-! ## The stores -/

/-- In a policy a run of clean calls builds, the tree holds one node
for each name given, found by exactly that name, with the rules added under it in
call order, and the wildcard list holds the rules of the calls without a name in
call order. -/
theorem transmissionRun_stores {calls : List TransmissionCall} {policy : TransmissionPolicy}
    (hrun : transmissionRun calls transmissionPolicyInit = .ok policy)
    (hclean : ∀ c ∈ calls, c.Clean) :
    (policy.policyByNameTree.toList.map (·.name)).Nodup ∧
    (∀ n, n ∈ policy.policyByNameTree.toList.map (·.name) ↔
      n ∈ (calls.filterMap namedRule).map Prod.fst) ∧
    (∀ n b, policy.policyByNameTree.findEntry (transmissionPolicyByNameCompare n) = some b ↔
      b ∈ policy.policyByNameTree.toList ∧ b.name = n) ∧
    (∀ b ∈ policy.policyByNameTree.toList,
      b.entryList.map (·.rule) = rulesFor (calls.filterMap namedRule) b.name) ∧
    policy.wildcardEntryList.map (·.rule) = calls.filterMap wildcardRule := by
  have h := transmissionRun_holds hrun hclean
  exact ⟨h.names.nodup, h.names.mem_keys, fun n _ =>
    findEntry_eq_some_iff (transmissionPolicyByNameCompare_agrees n) h.names.ordered,
    h.names.content, h.wildcard⟩

theorem transmissionRun_stores_a :
    [(⟨[], .null, .null, .null, .null, 0, ⟨false, 1⟩⟩ : TransmissionPolicyEntry),
      ⟨[], .null, .null, .null, .null, 0, ⟨true, 2⟩⟩].map (·.rule) =
    rulesFor ([(⟨some ⟨[97], by decide⟩, none, none, none, none, 0, false, 1,
      ⟨some CStr.empty, some ⟨.null, .null, fun _ => 0⟩⟩⟩ : TransmissionCall),
      ⟨some ⟨[97], by decide⟩, none, none, none, none, 0, true, 2,
      ⟨some CStr.empty, some ⟨.null, .null, fun _ => 0⟩⟩⟩].filterMap namedRule) ⟨[97], by decide⟩ :=
  (transmissionRun_stores (show transmissionRun [⟨some ⟨[97], by decide⟩, none, none, none, none, 0,
      false, 1, ⟨some CStr.empty, some ⟨.null, .null, fun _ => 0⟩⟩⟩, ⟨some ⟨[97], by decide⟩, none,
      none, none, none, 0, true, 2, ⟨some CStr.empty, some ⟨.null, .null, fun _ => 0⟩⟩⟩]
      transmissionPolicyInit = .ok ⟨.node .nil ⟨⟨[97], by decide⟩,
      [⟨[], .null, .null, .null, .null, 0, ⟨false, 1⟩⟩, ⟨[], .null, .null, .null, .null, 0, ⟨true, 2⟩⟩]⟩
      .nil, []⟩ from rfl) (by simp [Clean])).2.2.2.1 ⟨⟨[97], by decide⟩,
      [⟨[], .null, .null, .null, .null, 0, ⟨false, 1⟩⟩, ⟨[], .null, .null, .null, .null, 0, ⟨true, 2⟩⟩]⟩
      (by simp)

/-! ## Memory the code does not set -/

/-- A deny rule that names no peer and no field, added in memory whose `error` field
points at "x": it is the highest-priority call that applies to the driver's request
without an error, yet the check allows that request. -/
theorem transmissionPolicyCheckAllowed_stale_error :
    transmissionRun [⟨none, none, none, none, none, 0, true, 1,
        ⟨none, some ⟨.other ⟨[120], by decide⟩, .null, fun _ => 0⟩⟩⟩] transmissionPolicyInit =
      .ok ⟨.nil, [⟨[], .null, .null, .other ⟨[120], by decide⟩, .null, 0, ⟨true, 1⟩⟩]⟩ ∧
    transmissionPolicyCheckAllowed ⟨.nil, [⟨[], .null, .null, .other ⟨[120], by decide⟩, .null, 0,
      ⟨true, 1⟩⟩]⟩ none none none none none 0 = 0 ∧
    ∃ c ∈ [(⟨none, none, none, none, none, 0, true, 1,
        ⟨none, some ⟨.other ⟨[120], by decide⟩, .null, fun _ => 0⟩⟩⟩ : TransmissionCall)],
      c.Matches none none none none none 0 ∧ c.decision.deny = true ∧
      ∀ c' ∈ [(⟨none, none, none, none, none, 0, true, 1,
          ⟨none, some ⟨.other ⟨[120], by decide⟩, .null, fun _ => 0⟩⟩⟩ : TransmissionCall)],
        c'.Matches none none none none none 0 → c'.decision.priority ≤ c.decision.priority :=
  ⟨rfl, rfl, by decide⟩

/-- Two rules for "a", the first added in memory where the byte after the copied
name is 'b' and not NUL: the first node reads back as "ab", so the second call does
not find it, and the tree ends with two nodes for "a". -/
theorem tranmsissionPolicyAddEntry_unterminated_name :
    (transmissionRun [⟨some ⟨[97], by decide⟩, none, none, none, none, 0, false, 1,
        ⟨some ⟨[98], by decide⟩, some ⟨.null, .null, fun _ => 0⟩⟩⟩,
      ⟨some ⟨[97], by decide⟩, none, none, none, none, 0, true, 2,
        ⟨some CStr.empty, some ⟨.null, .null, fun _ => 0⟩⟩⟩] transmissionPolicyInit).map
      (fun p => p.policyByNameTree.toList.map (·.name)) =
      .ok [⟨[97], by decide⟩, ⟨[97, 98], by decide⟩] :=
  rfl

end DbusBroker
