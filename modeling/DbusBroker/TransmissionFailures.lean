import DbusBroker.TransmissionRuns

/- Failed calls of the transmission policy.

   `tranmsission_policy_add_entry` links a new `TransmissionPolicyByName` into the tree
   before it allocates the entry, and does not unlink it when that `malloc` fails: the
   call returns `-ENOMEM` and the node stays, with no entries. Every other failure
   leaves the policy as it was.

   A caller that goes on past failed calls (`runAllCalls`) so builds a tree holding
   the names of the successful calls and of such failed ones. `TransmissionCovers` is
   the invariant of those runs: every name of a successful call has a node, and every
   node holds exactly the rules the successful calls added under its name, so the
   nodes failed calls left hold nothing. The check reads a node only through its
   rules.

   What is proved:
     1. `TransmissionCall.apply_cases` — what one call can do, once: the four ways out
        of `tranmsission_policy_add_entry`. From it, `TransmissionCall.apply_error`:
        a failed call leaves the policy as it was, or, when the name had no node and
        only the entry's `malloc` failed, adds that node with no entries.
     2. `transmissionCovers_step`, `transmissionCovers_error` — a clean call keeps
        `TransmissionCovers`, with itself if it returns 0 and without if it fails;
        so every run of clean calls past failures keeps it
        (`transmissionRunAll_covers`), and the tree still holds one node per name,
        the failed calls' nodes empty (`transmissionRunAll_stores`).
     3. `transmissionPolicyCheckAllowed_runAllCalls` — after such a run, the check
        decides by the successful calls alone. The run of those calls alone need
        not succeed: a later call may have found the node a failed call left.
-/

namespace DbusBroker

open PolicyDecision CRBTree TransmissionCall

/-! ## What a call can do -/

/-- The entry a call's `transmission_policy_entry_new` makes, linked at the tail of
`l`: the `entryNew` of `tranmsission_policy_add_entry`. -/
def TransmissionCall.entryNew (c : TransmissionCall) (l : List TransmissionPolicyEntry) :
    Int × List TransmissionPolicyEntry :=
  transmissionPolicyEntryNew l c.interface c.member c.error c.path c.type c.deny c.priority
    c.alloc.entry

/-- A call of `tranmsission_policy_add_entry` adds its entry to the wildcard list, to the
list of the node its name finds, or to a new node it links for its name; or, when the
node's `malloc` fails, returns `-ENOMEM` and changes nothing. -/
theorem TransmissionCall.apply_cases {c : TransmissionCall} {p p' : TransmissionPolicy} {r : Int}
    (happ : c.apply p = (r, p')) :
    (c.name = none ∧ ∃ l, c.entryNew p.wildcardEntryList = (r, l) ∧
      p' = ⟨p.policyByNameTree, l⟩) ∨
    ∃ name, c.name = some name ∧
      ((∃ b L, p.policyByNameTree.findEntry (transmissionPolicyByNameCompare name) = some b ∧
          c.entryNew b.entryList = (r, L) ∧
          p' = ⟨p.policyByNameTree.modify (transmissionPolicyByNameCompare name)
            ({ · with entryList := L }), p.wildcardEntryList⟩) ∨
        (p.policyByNameTree.findEntry (transmissionPolicyByNameCompare name) = none ∧
          c.alloc.byName = none ∧ r = -ENOMEM ∧ p' = p) ∨
        ∃ after L, p.policyByNameTree.findEntry (transmissionPolicyByNameCompare name) = none ∧
          c.alloc.byName = some after ∧
          c.entryNew (transmissionPolicyByNameNew name after).entryList = (r, L) ∧
          p' = ⟨p.policyByNameTree.add (transmissionPolicyByNameCompare name)
            { transmissionPolicyByNameNew name after with entryList := L }, p.wildcardEntryList⟩) := by
  unfold TransmissionCall.apply tranmsissionPolicyAddEntry at happ
  cases hname : c.name with
  | none =>
    simp only [hname] at happ
    rcases hnew : c.entryNew p.wildcardEntryList with ⟨r', l⟩
    rw [show transmissionPolicyEntryNew _ _ _ _ _ _ _ _ _ = _ from hnew, Prod.mk.injEq] at happ
    obtain ⟨rfl, rfl⟩ := happ
    exact .inl ⟨rfl, l, rfl, rfl⟩
  | some name =>
    simp only [hname] at happ
    refine .inr ⟨name, rfl, ?_⟩
    split at happ
    · next b hfind =>
      rcases hnew : c.entryNew b.entryList with ⟨r', L⟩
      rw [show transmissionPolicyEntryNew _ _ _ _ _ _ _ _ _ = _ from hnew, Prod.mk.injEq] at happ
      obtain ⟨rfl, rfl⟩ := happ
      exact .inl ⟨b, L, hfind, hnew, rfl⟩
    · next hfind =>
      split at happ
      · next hnone => exact .inr (.inl ⟨hfind, hnone, (Prod.mk.inj happ).1.symm,
          (Prod.mk.inj happ).2.symm⟩)
      · next after hafter =>
        rcases hnew : c.entryNew (transmissionPolicyByNameNew name after).entryList with ⟨r', L⟩
        rw [show transmissionPolicyEntryNew _ _ _ _ _ _ _ _ _ = _ from hnew, Prod.mk.injEq] at happ
        obtain ⟨rfl, rfl⟩ := happ
        exact .inr (.inr ⟨after, L, hfind, hafter, hnew, rfl⟩)

/-! ## A failed call -/

theorem transmissionPolicyEntryNew_error {l l' : List TransmissionPolicyEntry}
    {interface member error path : Option CStr} {type : Int} {deny : Bool} {priority : UInt64}
    {mem : Option EntryMemory} {r : Int}
    (h : transmissionPolicyEntryNew l interface member error path type deny priority mem = (r, l'))
    (hr : r ≠ 0) : mem = none ∧ l' = l := by
  cases mem with
  | none => exact ⟨rfl, (Prod.mk.inj h).2.symm⟩
  | some mem =>
    rw [transmissionPolicyEntryNew_some] at h
    exact absurd (Prod.mk.inj h).1.symm hr

theorem TransmissionCall.apply_error {c : TransmissionCall} {p p' : TransmissionPolicy} {r : Int}
    (happ : c.apply p = (r, p')) (hr : r ≠ 0) :
    p' = p ∨ ∃ name after, c.name = some name ∧ c.alloc.byName = some after ∧
      c.alloc.entry = none ∧
      p.policyByNameTree.findEntry (transmissionPolicyByNameCompare name) = none ∧
      p' = ⟨p.policyByNameTree.add (transmissionPolicyByNameCompare name)
        (transmissionPolicyByNameNew name after), p.wildcardEntryList⟩ := by
  rcases apply_cases happ with ⟨-, l, hl, rfl⟩ |
    ⟨name, hname, ⟨b, L, hfind, hL, rfl⟩ | ⟨-, -, -, rfl⟩ | ⟨after, L, hfind, hafter, hL, rfl⟩⟩
  · obtain ⟨-, rfl⟩ := transmissionPolicyEntryNew_error hl hr
    exact .inl rfl
  · -- the found node is rewritten into itself
    obtain ⟨-, rfl⟩ := transmissionPolicyEntryNew_error hL hr
    exact .inl (by rw [modify_eq_self rfl hfind])
  · exact .inl rfl
  · obtain ⟨hentry, rfl⟩ := transmissionPolicyEntryNew_error hL hr
    exact .inr ⟨name, after, hname, hafter, hentry, hfind, rfl⟩

/- A deny rule for "a" whose entry's `malloc` fails: the call returns `-ENOMEM`, and the
tree keeps a node for "a" with no entries. -/
example : (⟨some ⟨[97], by decide⟩, none, none, none, none, 0, true, 1,
    ⟨some CStr.empty, none⟩⟩ : TransmissionCall).apply transmissionPolicyInit =
      (-ENOMEM, ⟨.node .nil ⟨⟨[97], by decide⟩ ++ CStr.empty, []⟩ .nil, []⟩) := rfl

/-! ## Runs past failed calls -/

theorem transmissionCovers_step {p p' : TransmissionPolicy} {cs : List TransmissionCall}
    {c : TransmissionCall} (h : TransmissionCovers p cs) (hc : c.Clean)
    (happ : c.apply p = (0, p')) : TransmissionCovers p' (cs ++ [c]) := by
  rcases apply_cases happ with ⟨hname, l, hl, rfl⟩ | ⟨name, hname, hnamed_case⟩
  · have hnamed : (cs ++ [c]).filterMap namedRule = cs.filterMap namedRule := by
      simp [namedRule, hname]
    refine ⟨hnamed ▸ h.names, ?_⟩
    simp [entryNew_clean hc hl, h.wildcard, wildcardRule, hname]
  have hnamed : (cs ++ [c]).filterMap namedRule = cs.filterMap namedRule ++ [(name, c.rule)] := by
    simp [namedRule, hname]
  have hwild : (cs ++ [c]).filterMap wildcardRule = cs.filterMap wildcardRule := by
    simp [wildcardRule, hname]
  have hcmp := transmissionPolicyByNameCompare_agrees name
  rcases hnamed_case with ⟨b, L, hfind, hL, rfl⟩ | ⟨-, -, h0, -⟩ | ⟨after, L, hfind, hafter, hL, rfl⟩
  · obtain ⟨hb, hbn⟩ := (findEntry_eq_some_iff hcmp h.names.ordered).mp hfind
    refine ⟨?_, by simpa [hwild] using h.wildcard⟩
    rw [hnamed]
    refine h.names.modify Function.injective_id hcmp (g := ({ · with entryList := L }))
      (fun _ => rfl) (by simp [hfind]) (fun _ => mem_keys_snoc) (fun _ => rulesFor_snoc_of_ne)
      fun _ _ _ => ?_
    rw [rulesFor_append, if_pos rfl, entryNew_clean hc hL, h.names.content b hb, hbn]
  · exact absurd h0 (by decide)
  · obtain rfl := hc.2 after hafter
    refine ⟨?_, by simpa [hwild] using h.wildcard⟩
    rw [hnamed]
    refine h.names.add hcmp hfind (by simp [transmissionPolicyByNameNew]) (fun _ => mem_keys_snoc)
      (fun _ => rulesFor_snoc_of_ne) ?_
    rw [rulesFor_append, if_pos rfl,
      h.names.rulesFor_eq_nil ((findEntry_eq_none_iff hcmp h.names.ordered).mp hfind)]
    simpa [transmissionPolicyByNameNew] using entryNew_clean hc hL

theorem transmissionCovers_error {p p' : TransmissionPolicy} {cs : List TransmissionCall}
    {c : TransmissionCall} {r : Int} (h : TransmissionCovers p cs) (hc : c.Clean)
    (happ : c.apply p = (r, p')) (hr : r ≠ 0) : TransmissionCovers p' cs := by
  rcases TransmissionCall.apply_error happ hr with rfl | ⟨name, after, -, hafter, -, hfind, rfl⟩
  · exact h
  · obtain rfl := hc.2 after hafter
    have hcmp := transmissionPolicyByNameCompare_agrees name
    have hn : (transmissionPolicyByNameNew name CStr.empty).name = name := by
      simp [transmissionPolicyByNameNew]
    refine ⟨h.names.add hcmp hfind hn (fun _ => Or.inr) (fun _ _ => rfl) ?_, h.wildcard⟩
    exact (h.names.rulesFor_eq_nil ((findEntry_eq_none_iff hcmp h.names.ordered).mp hfind)).symm

/-- After every run of clean calls from `transmissionPolicyInit` that goes
on past failed calls, the policy `TransmissionCovers` the calls that returned 0. -/
theorem transmissionRunAll_covers {calls : List TransmissionCall} (hclean : ∀ c ∈ calls, c.Clean) :
    TransmissionCovers (runAllCalls TransmissionCall.apply calls transmissionPolicyInit).1
      (runAllCalls TransmissionCall.apply calls transmissionPolicyInit).2 := by
  simpa using runAllCalls_induction Clean TransmissionCovers
    (fun hc h happ => transmissionCovers_step h hc happ)
    (fun hc h happ hr => transmissionCovers_error h hc happ hr) hclean
    transmissionHolds_init.toCovers

/-- After every run of clean calls that goes on past failed calls, the tree holds one node
per name, a node for every name a successful call gave, and in each node exactly the rules
the successful calls added under its name, in call order: the nodes failed calls left hold
none. The wildcard list holds the rules of the successful calls without a name, in call
order. -/
theorem transmissionRunAll_stores {calls : List TransmissionCall} (hclean : ∀ c ∈ calls, c.Clean) :
    ((runAllCalls TransmissionCall.apply calls transmissionPolicyInit).1.policyByNameTree.toList.map
      (·.name)).Nodup ∧
    (∀ n ∈ ((runAllCalls TransmissionCall.apply calls transmissionPolicyInit).2.filterMap
      namedRule).map Prod.fst, n ∈ (runAllCalls TransmissionCall.apply calls
        transmissionPolicyInit).1.policyByNameTree.toList.map (·.name)) ∧
    (∀ b ∈ (runAllCalls TransmissionCall.apply calls transmissionPolicyInit).1.policyByNameTree.toList,
      b.entryList.map (·.rule) = rulesFor ((runAllCalls TransmissionCall.apply calls
        transmissionPolicyInit).2.filterMap namedRule) b.name) ∧
    (runAllCalls TransmissionCall.apply calls transmissionPolicyInit).1.wildcardEntryList.map
      (·.rule) = (runAllCalls TransmissionCall.apply calls transmissionPolicyInit).2.filterMap
        wildcardRule := by
  have h := transmissionRunAll_covers hclean
  exact ⟨h.names.nodup, fun n hn => List.mem_map.mpr (h.names.covers n hn), h.names.content,
    h.wildcard⟩

theorem transmissionRunAll_stores_a :
    (∀ c ∈ [(⟨some ⟨[97], by decide⟩, none, none, none, none, 0, true, 1,
        ⟨some CStr.empty, none⟩⟩ : TransmissionCall)], c.Clean) ∧
    ((runAllCalls TransmissionCall.apply [⟨some ⟨[97], by decide⟩, none, none, none, none, 0, true, 1,
        ⟨some CStr.empty, none⟩⟩] transmissionPolicyInit).1.policyByNameTree.toList.map
      (·.name)).Nodup ∧
    (∀ n ∈ ((runAllCalls TransmissionCall.apply [⟨some ⟨[97], by decide⟩, none, none, none, none, 0,
        true, 1, ⟨some CStr.empty, none⟩⟩] transmissionPolicyInit).2.filterMap namedRule).map
        Prod.fst, n ∈ (runAllCalls TransmissionCall.apply [⟨some ⟨[97], by decide⟩, none, none, none,
        none, 0, true, 1, ⟨some CStr.empty, none⟩⟩] transmissionPolicyInit).1.policyByNameTree.toList.map
        (·.name)) ∧
    (∀ b ∈ (runAllCalls TransmissionCall.apply [⟨some ⟨[97], by decide⟩, none, none, none, none, 0,
        true, 1, ⟨some CStr.empty, none⟩⟩] transmissionPolicyInit).1.policyByNameTree.toList,
      b.entryList.map (·.rule) = rulesFor ((runAllCalls TransmissionCall.apply [⟨some ⟨[97], by decide⟩,
        none, none, none, none, 0, true, 1, ⟨some CStr.empty, none⟩⟩]
        transmissionPolicyInit).2.filterMap namedRule) b.name) ∧
    (runAllCalls TransmissionCall.apply [⟨some ⟨[97], by decide⟩, none, none, none, none, 0, true, 1,
        ⟨some CStr.empty, none⟩⟩] transmissionPolicyInit).1.wildcardEntryList.map (·.rule) =
      (runAllCalls TransmissionCall.apply [⟨some ⟨[97], by decide⟩, none, none, none, none, 0, true, 1,
        ⟨some CStr.empty, none⟩⟩] transmissionPolicyInit).2.filterMap wildcardRule := by
  refine ⟨?clean, transmissionRunAll_stores ?clean⟩
  simp [Clean]

/-- After a run of clean calls that goes on past failed calls, every check decides by the
calls that returned 0 alone: it returns the decision that `Decides` over those whose rule
applies to the subject's request, the last of the highest priority in the order the check
merges them. The nodes failed calls left are not seen. -/
theorem transmissionPolicyCheckAllowed_runAllCalls {calls : List TransmissionCall}
    (hclean : ∀ c ∈ calls, c.Clean) (subject : Option (List NameOwnership))
    (interface member error path : Option CStr) (type : Int) :
    ∃ D, transmissionPolicyCheckAllowed (runAllCalls TransmissionCall.apply calls
        transmissionPolicyInit).1 subject interface member error path type =
        (if D.deny then POLICY_E_ACCESS_DENIED else 0) ∧
      Decides decision (runAllCalls TransmissionCall.apply calls transmissionPolicyInit).2
        (Matches subject interface member error path type) D ∧
      LastWins (checkedDecisions (runAllCalls TransmissionCall.apply calls transmissionPolicyInit).2
        subject interface member error path type) D :=
  ⟨_, (transmissionRunAll_covers hclean).checkAllowed_eq subject interface member error path type,
    checkedDecisions_decides _ subject interface member error path type, lastWins_foldl_update _⟩

theorem transmissionPolicyCheckAllowed_runAllCalls_a :
    (runAllCalls TransmissionCall.apply [⟨some ⟨[97], by decide⟩, none, none, none, none, 0, true, 1,
        ⟨some CStr.empty, none⟩⟩, ⟨some ⟨[97], by decide⟩, none, none, none, none, 0, false, 2,
        ⟨none, some ⟨.null, .null, fun _ => 0⟩⟩⟩] transmissionPolicyInit).2 =
      [⟨some ⟨[97], by decide⟩, none, none, none, none, 0, false, 2,
        ⟨none, some ⟨.null, .null, fun _ => 0⟩⟩⟩] ∧
    (∀ c ∈ [(⟨some ⟨[97], by decide⟩, none, none, none, none, 0, true, 1,
        ⟨some CStr.empty, none⟩⟩ : TransmissionCall), ⟨some ⟨[97], by decide⟩, none, none, none,
        none, 0, false, 2, ⟨none, some ⟨.null, .null, fun _ => 0⟩⟩⟩], c.Clean) ∧
    ∃ D, transmissionPolicyCheckAllowed (runAllCalls TransmissionCall.apply
        [⟨some ⟨[97], by decide⟩, none, none, none, none, 0, true, 1, ⟨some CStr.empty, none⟩⟩,
        ⟨some ⟨[97], by decide⟩, none, none, none, none, 0, false, 2,
        ⟨none, some ⟨.null, .null, fun _ => 0⟩⟩⟩] transmissionPolicyInit).1
        (some [⟨⟨[97], by decide⟩, true⟩]) none none none none 0 =
        (if D.deny then POLICY_E_ACCESS_DENIED else 0) ∧
      Decides decision (runAllCalls TransmissionCall.apply
        [⟨some ⟨[97], by decide⟩, none, none, none, none, 0, true, 1, ⟨some CStr.empty, none⟩⟩,
        ⟨some ⟨[97], by decide⟩, none, none, none, none, 0, false, 2,
        ⟨none, some ⟨.null, .null, fun _ => 0⟩⟩⟩] transmissionPolicyInit).2
        (Matches (some [⟨⟨[97], by decide⟩, true⟩]) none none none none 0) D ∧
      LastWins (checkedDecisions (runAllCalls TransmissionCall.apply
        [⟨some ⟨[97], by decide⟩, none, none, none, none, 0, true, 1, ⟨some CStr.empty, none⟩⟩,
        ⟨some ⟨[97], by decide⟩, none, none, none, none, 0, false, 2,
        ⟨none, some ⟨.null, .null, fun _ => 0⟩⟩⟩] transmissionPolicyInit).2
        (some [⟨⟨[97], by decide⟩, true⟩]) none none none none 0) D := by
  refine ⟨rfl, ?clean, transmissionPolicyCheckAllowed_runAllCalls ?clean _ _ _ _ _ _⟩
  simp [Clean]

end DbusBroker
