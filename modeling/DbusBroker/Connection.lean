import DbusBroker.KeyedStore

/- The connection policy: may a peer with a given uid connect?

   `ConnectionPolicy` holds two trees, `uidTree` and `gidTree`, and a wildcard
   decision for each. `connectionPolicyCheckAllowed` starts from the wildcard of
   higher priority, the gid wildcard when they tie, and merges in the entry the
   lookup of the uid finds. The group entries are not read: the source marks that
   check as not yet written ("XXX: check the groups too").

   `connection_policy_add_entry` has the body of `ownership_policy_add_entry`
   (`policyAddEntry`), but `connection_policy_entry_new` differs from
   `ownership_policy_entry_new`: it never writes its `uid` into the entry, which
   `calloc` returned zeroed, so every entry of both trees is keyed 0. The comparator
   still compares the caller's id with those keys, so for an id other than 0 the
   lookup finds nothing and an insertion descends right to the end of the tree,
   whatever its shape. For the id 0 the lookup stops at the root, which depends on
   the rotations the model leaves out; nothing below is stated about the id 0.

   What is proved:
     1. `ZeroKeyed.addEntry` — every call of `connectionPolicyAddEntry`, whatever it
        returns, keeps every entry keyed 0.
     2. `ZeroKeyed.addEntry_toList` — for an id other than 0 a call that returns 0
        appends one entry, keyed 0, with the call's decision.
     3. `ConnectionStore.step` — so a tree holds, as long as no call adds the id 0,
        one entry per successful call in call order: two calls for one id make two
        entries.
     4. `ZeroKeyed.updateDecision` — for an id other than 0 the lookup of the check
        leaves the decision it is given.
-/

namespace DbusBroker

open PolicyDecision CRBTree

/-- An entry of `uid_tree` or `gid_tree`; `key` is its `uid` field. -/
abbrev ConnectionPolicyEntry := PolicyEntry UInt32

/-- The state of a `ConnectionPolicy`. -/
structure ConnectionPolicy where
  uidTree : CRBTree ConnectionPolicyEntry
  gidTree : CRBTree ConnectionPolicyEntry
  uidWildcard : PolicyDecision
  gidWildcard : PolicyDecision

/-- `connection_policy_init`: the zeroed policy. -/
def connectionPolicyInit : ConnectionPolicy := ⟨.nil, .nil, neutral, neutral⟩

/-- `connection_policy_set_uid_wildcard`. -/
def connectionPolicySetUidWildcard (policy : ConnectionPolicy) (deny : Bool) (priority : UInt64) :
    Int × ConnectionPolicy :=
  (0, { policy with uidWildcard := policySetWildcard policy.uidWildcard deny priority })

/-- `connection_policy_set_gid_wildcard`. -/
def connectionPolicySetGidWildcard (policy : ConnectionPolicy) (deny : Bool) (priority : UInt64) :
    Int × ConnectionPolicy :=
  (0, { policy with gidWildcard := policySetWildcard policy.gidWildcard deny priority })

/-- `connection_policy_entry_compare`: the uid against an entry's. -/
def connectionPolicyEntryCompare (uid : UInt32) (entry : ConnectionPolicyEntry) : Int :=
  if uid < entry.key then -1 else if uid > entry.key then 1 else 0

/-- `connection_policy_entry_new`, at the slot of `uid`; `alloc` is whether `calloc`
returns memory. The source sets the entry's `policy` and `decision` but never its
`uid`, which stays as `calloc` left it: 0. -/
def connectionPolicyEntryNew (policy : CRBTree ConnectionPolicyEntry) (uid : UInt32) (deny : Bool)
    (priority : UInt64) (alloc : Bool) : Int × CRBTree ConnectionPolicyEntry :=
  if alloc then (0, policy.add (connectionPolicyEntryCompare uid) ⟨0, ⟨deny, priority⟩⟩)
  else (-ENOMEM, policy)

/-- `connection_policy_add_entry` on the tree `policy`. -/
def connectionPolicyAddEntry (policy : CRBTree ConnectionPolicyEntry) (uid : UInt32) (deny : Bool)
    (priority : UInt64) (alloc : Bool) : Int × CRBTree ConnectionPolicyEntry :=
  policyAddEntry (connectionPolicyEntryCompare uid) policy deny priority
    (connectionPolicyEntryNew policy uid deny priority alloc)

/-- `connection_policy_add_uid`. -/
def connectionPolicyAddUid (policy : ConnectionPolicy) (uid : UInt32) (deny : Bool)
    (priority : UInt64) (alloc : Bool) : Int × ConnectionPolicy :=
  let (r, uidTree) := connectionPolicyAddEntry policy.uidTree uid deny priority alloc
  (r, { policy with uidTree })

/-- `connection_policy_add_gid`; `gid_t` and `uid_t` are both 32 bits, so the cast
keeps the id. -/
def connectionPolicyAddGid (policy : ConnectionPolicy) (gid : UInt32) (deny : Bool)
    (priority : UInt64) (alloc : Bool) : Int × ConnectionPolicy :=
  let (r, gidTree) := connectionPolicyAddEntry policy.gidTree gid deny priority alloc
  (r, { policy with gidTree })

/-- `connection_policy_update_decision`. -/
def connectionPolicyUpdateDecision (policy : CRBTree ConnectionPolicyEntry) (uid : UInt32)
    (decision : PolicyDecision) : PolicyDecision :=
  policyUpdateDecision (connectionPolicyEntryCompare uid) policy decision

/-- `connection_policy_check_allowed`. -/
def connectionPolicyCheckAllowed (policy : ConnectionPolicy) (uid : UInt32) : Int :=
  let decision :=
    if policy.uidWildcard.priority > policy.gidWildcard.priority then policy.uidWildcard
    else policy.gidWildcard
  let decision := connectionPolicyUpdateDecision policy.uidTree uid decision
  if decision.deny then POLICY_E_ACCESS_DENIED else 0

theorem connectionPolicyEntryNew_error (policy : CRBTree ConnectionPolicyEntry) (uid : UInt32)
    (deny : Bool) (priority : UInt64) (alloc : Bool) :
    (connectionPolicyEntryNew policy uid deny priority alloc).1 ≠ 0 →
      (connectionPolicyEntryNew policy uid deny priority alloc).2 = policy := by
  unfold connectionPolicyEntryNew
  split <;> simp

/-! ## Trees keyed 0 -/

/-- Every entry of the tree is keyed 0. -/
def ZeroKeyed (t : CRBTree ConnectionPolicyEntry) : Prop := ∀ e ∈ t.toList, e.key = 0

theorem connectionPolicyEntryCompare_pos {uid : UInt32} (hu : uid ≠ 0) {e : ConnectionPolicyEntry}
    (he : e.key = 0) : 0 < connectionPolicyEntryCompare uid e := by
  have hpos : 0 < uid.toNat := Nat.pos_of_ne_zero fun h => hu (UInt32.toNat.inj h)
  have hlt : ¬ uid < e.key := fun h => absurd (show uid.toNat < e.key.toNat from h) (by simp [he])
  have hgt : uid > e.key := show e.key.toNat < uid.toNat by simpa [he] using hpos
  simp [connectionPolicyEntryCompare, hlt, hgt]

variable {t t' : CRBTree ConnectionPolicyEntry} {uid : UInt32} {deny : Bool} {priority : UInt64}
  {alloc : Bool}

theorem zeroKeyed_nil : ZeroKeyed .nil := fun _ h => absurd h (List.not_mem_nil _)

theorem ZeroKeyed.findEntry (ht : ZeroKeyed t) (hu : uid ≠ 0) :
    t.findEntry (connectionPolicyEntryCompare uid) = none :=
  findEntry_eq_none_of_pos fun x hx => connectionPolicyEntryCompare_pos hu (ht x hx)

theorem ZeroKeyed.modify (ht : ZeroKeyed t) {f : ConnectionPolicyEntry → Int}
    {g : ConnectionPolicyEntry → ConnectionPolicyEntry} (hg : ∀ x, (g x).key = x.key) :
    ZeroKeyed (t.modify f g) := fun e he => by
  obtain ⟨x, hx, hxe⟩ := List.mem_map.mp
    (toList_modify_keys hg t ▸ List.mem_map_of_mem PolicyEntry.key he)
  exact hxe ▸ ht x hx

/-- Every call keeps the keys 0: a new entry is keyed 0, and the entry a lookup
finds only has its decision rewritten. -/
theorem ZeroKeyed.addEntry (ht : ZeroKeyed t) {r : Int}
    (h : connectionPolicyAddEntry t uid deny priority alloc = (r, t')) : ZeroKeyed t' := by
  unfold connectionPolicyAddEntry policyAddEntry connectionPolicyEntryNew at h
  split at h
  · cases h
    exact ht.modify fun x => by split <;> rfl
  · split at h <;> cases h
    · exact fun e he => (mem_of_mem_add he).elim (fun h => h ▸ rfl) (ht e)
    · exact ht

/-- For an id other than 0 a call that returns 0 appends its entry, keyed 0. -/
theorem ZeroKeyed.addEntry_toList (ht : ZeroKeyed t) (hu : uid ≠ 0)
    (h : connectionPolicyAddEntry t uid deny priority alloc = (0, t')) :
    t'.toList = t.toList ++ [⟨0, ⟨deny, priority⟩⟩] := by
  rw [connectionPolicyAddEntry, policyAddEntry, ht.findEntry hu, connectionPolicyEntryNew] at h
  dsimp only at h
  split at h
  · cases h
    exact toList_add_of_pos _ fun x hx => connectionPolicyEntryCompare_pos hu (ht x hx)
  · exact absurd (Prod.mk.inj h).1 (by decide)

/-- A tree and the rules `(id, decision)` added to it, in call order: every entry is
keyed 0, and, when no rule is for the id 0, the tree holds one entry per rule in
call order, whatever their ids. -/
structure ConnectionStore (t : CRBTree ConnectionPolicyEntry)
    (rules : List (UInt32 × PolicyDecision)) : Prop where
  zeroKeyed : ZeroKeyed t
  entries : 0 ∉ rules.map Prod.fst → t.toList = rules.map fun r => ⟨0, r.2⟩

theorem connectionStore_nil : ConnectionStore .nil [] := ⟨zeroKeyed_nil, fun _ => rfl⟩

theorem ConnectionStore.step {rules : List (UInt32 × PolicyDecision)} (h : ConnectionStore t rules)
    (hadd : connectionPolicyAddEntry t uid deny priority alloc = (0, t')) :
    ConnectionStore t' (rules ++ [(uid, ⟨deny, priority⟩)]) := by
  refine ⟨h.zeroKeyed.addEntry hadd, fun h0 => ?_⟩
  simp only [List.map_append, List.map_singleton, List.mem_append, List.mem_singleton,
    not_or] at h0
  rw [h.zeroKeyed.addEntry_toList (Ne.symm h0.2) hadd, h.entries h0.1, List.map_append]
  rfl

theorem ZeroKeyed.updateDecision (ht : ZeroKeyed t) (hu : uid ≠ 0) (d : PolicyDecision) :
    connectionPolicyUpdateDecision t uid d = d := by
  rw [connectionPolicyUpdateDecision, policyUpdateDecision, ht.findEntry hu]

end DbusBroker
