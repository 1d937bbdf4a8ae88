import DbusBroker.CRBTree
import DbusBroker.Decision

/- The keyed stores: `OwnershipPolicy.names` and `.prefixes` (keyed by a name) and
   `ConnectionPolicy.uid_tree` and `.gid_tree` (keyed by an id).

   `ownership_policy_add_entry` and `connection_policy_add_entry` have one body but
   for the entry they make (`policyAddEntry`, which takes the store's `*_entry_new`),
   and so do the two `*_update_decision` lookups (`policyUpdateDecision`). The two
   `*_entry_new` differ: `ownership_policy_entry_new` stores its key (`policyEntryNew`),
   `connection_policy_entry_new` does not (see `DbusBroker.Connection`). Each store's
   module defines its own functions under the source's names from these bodies.

   `keyedDecision ds` is what a key's entry holds after the rules `ds` were added
   under it in call order: the first creates the entry, and a later one replaces it
   only at a strictly higher priority.

   What is proved:
     1. `KeyedHolds.modify`, `KeyedHolds.add` — changing the node a search finds, or
        linking a new node where it ends, keeps a search tree ordered with one node
        per key added; `Holds.step` — so a call of `policyAddEntry` with an entry
        that stores its key, returning 0, keeps the store invariant `Holds`: each
        entry holds the `keyedDecision` of its key's rules; `policyAddEntry_error` — a
        call that fails leaves the tree as it was.
     2. `Holds.findEntry_decision` — on such a tree, a lookup under a key returns the
        `keyedDecision` of that key's rules, and nothing when none was added.
     3. `KeyedCovers.modify`, `KeyedCovers.add` — the same for trees where failed
        calls may have left nodes with no rules (`KeyedCovers`).
     4. `keyedDecision_rulesFor_snoc` — one more rule raises the entry of its key,
        and leaves every other.
-/

namespace DbusBroker

open PolicyDecision CRBTree

/-- An entry of a keyed store: the name of an `OwnershipPolicyEntry` or the uid of
a `ConnectionPolicyEntry`, and the entry's decision. -/
structure PolicyEntry (κ : Type) where
  key : κ
  decision : PolicyDecision
  deriving DecidableEq, Repr

section Body
variable {κ : Type} (cmp : PolicyEntry κ → Int)

/-- The body of `ownership_policy_entry_new`: a new entry for `key` linked at the
slot, if `malloc` returned memory (`alloc`). -/
def policyEntryNew (policy : CRBTree (PolicyEntry κ)) (key : κ) (deny : Bool)
    (priority : UInt64) (alloc : Bool) : Int × CRBTree (PolicyEntry κ) :=
  if alloc then (0, policy.add cmp ⟨key, ⟨deny, priority⟩⟩) else (-ENOMEM, policy)

/-- The body of `ownership_policy_add_entry` and `connection_policy_add_entry`: an
entry found under the key takes the new decision only at a strictly higher
priority; otherwise the store's `*_entry_new` makes a new entry, as `entryNew`. -/
def policyAddEntry (policy : CRBTree (PolicyEntry κ)) (deny : Bool) (priority : UInt64)
    (entryNew : Int × CRBTree (PolicyEntry κ)) : Int × CRBTree (PolicyEntry κ) :=
  match policy.findEntry cmp with
  | some _ => (0, policy.modify cmp fun entry =>
      if entry.decision.priority < priority then { entry with decision := ⟨deny, priority⟩ }
      else entry)
  | none => entryNew

/-- The body of `ownership_policy_update_decision` and
`connection_policy_update_decision`: the entry under the key, if any, replaces the
decision unless its priority is lower. -/
def policyUpdateDecision (policy : CRBTree (PolicyEntry κ)) (decision : PolicyDecision) :
    PolicyDecision :=
  match policy.findEntry cmp with
  | none => decision
  | some entry => if entry.decision.priority < decision.priority then decision else entry.decision

theorem policyUpdateDecision_eq (policy : CRBTree (PolicyEntry κ)) (d : PolicyDecision) :
    policyUpdateDecision cmp policy d =
      ((policy.findEntry cmp).map (·.decision)).elim d d.update := by
  unfold policyUpdateDecision update
  cases policy.findEntry cmp <;> rfl

theorem policyEntryNew_error (policy : CRBTree (PolicyEntry κ)) (key : κ) (deny : Bool)
    (priority : UInt64) (alloc : Bool) :
    (policyEntryNew cmp policy key deny priority alloc).1 ≠ 0 →
      (policyEntryNew cmp policy key deny priority alloc).2 = policy := by
  unfold policyEntryNew
  split <;> simp

/-- A call that fails leaves the tree as it was, if the store's `*_entry_new` does. -/
theorem policyAddEntry_error {policy t' : CRBTree (PolicyEntry κ)} {deny : Bool}
    {priority : UInt64} {entryNew : Int × CRBTree (PolicyEntry κ)} {r : Int}
    (hnew : entryNew.1 ≠ 0 → entryNew.2 = policy)
    (h : policyAddEntry cmp policy deny priority entryNew = (r, t')) (hr : r ≠ 0) :
    t' = policy := by
  unfold policyAddEntry at h
  split at h
  · cases h; exact absurd rfl hr
  · subst h; exact hnew hr

end Body

/-! ## What a keyed store holds -/

/-- What a key's entry holds after the rules `ds` were added under it, in call
order. -/
def keyedDecision : List PolicyDecision → Option PolicyDecision
  | [] => none
  | d :: ds => some (ds.foldl updateStrict d)

theorem keyedDecision_append (ds : List PolicyDecision) (d : PolicyDecision) :
    keyedDecision (ds ++ [d]) = some ((keyedDecision ds).elim d (·.updateStrict d)) := by
  cases ds <;> simp [keyedDecision]

theorem keyedDecision_snoc (ds : List PolicyDecision) (d : PolicyDecision) :
    Raises.OptRaises d (keyedDecision ds) (keyedDecision (ds ++ [d])) := by
  rw [keyedDecision_append]
  cases keyedDecision ds with
  | none => exact Or.inr ⟨rfl, by simp⟩
  | some w =>
    by_cases hw : w.priority < d.priority
    · exact Or.inr ⟨by simp [updateStrict, hw], fun a ha => by cases ha; exact prio_le_of_lt hw⟩
    · exact Or.inl (by simp [updateStrict, hw])

theorem keyedDecision_wins {ds : List PolicyDecision} {w : PolicyDecision}
    (h : keyedDecision ds = some w) : Wins w ds := by
  cases ds with
  | nil => cases h
  | cons d ds => cases h; exact wins_foldl_updateStrict ds d

theorem keyedDecision_of_mem {ds : List PolicyDecision} {d : PolicyDecision} (h : d ∈ ds) :
    ∃ w, keyedDecision ds = some w ∧ d.priority ≤ w.priority := by
  cases ds with
  | nil => cases h
  | cons d0 ds => exact ⟨_, rfl, (wins_foldl_updateStrict ds d0).2 d h⟩

section Holds
variable {κ K β : Type} [DecidableEq κ] [LinearOrder K] (ord : κ → K)

/-- The rules of `ins` added under `k`, in call order. -/
def rulesFor (ins : List (κ × β)) (k : κ) : List β :=
  (ins.filter (·.1 = k)).map Prod.snd

theorem mem_rulesFor {ins : List (κ × β)} {k : κ} {d : β} :
    d ∈ rulesFor ins k ↔ (k, d) ∈ ins := by
  simp only [rulesFor, List.mem_map, List.mem_filter, decide_eq_true_eq]
  constructor
  · rintro ⟨⟨k', d'⟩, ⟨h, rfl⟩, rfl⟩; exact h
  · intro h; exact ⟨(k, d), ⟨h, rfl⟩, rfl⟩

theorem rulesFor_append (ins : List (κ × β)) (k k' : κ) (d : β) :
    rulesFor (ins ++ [(k', d)]) k = if k' = k then rulesFor ins k ++ [d] else rulesFor ins k := by
  unfold rulesFor; split <;> simp [List.filter_append, *]

theorem keyedDecision_rulesFor_snoc (ins : List (κ × PolicyDecision)) (k k' : κ) (d : PolicyDecision) :
    Raises.OptRaises d (keyedDecision (rulesFor ins k)) (keyedDecision (rulesFor (ins ++ [(k', d)]) k)) := by
  rw [rulesFor_append]
  split
  · exact keyedDecision_snoc _ d
  · exact Or.inl rfl

theorem rulesFor_eq_nil {ins : List (κ × β)} {k : κ}
    (h : k ∉ ins.map Prod.fst) : rulesFor ins k = [] := by
  simp only [rulesFor, List.map_eq_nil_iff, List.filter_eq_nil_iff, decide_eq_true_eq]
  exact fun p hp hpk => h (List.mem_map.mpr ⟨p, hp, hpk⟩)

/-- A search tree and the rules added to it, each a key and a rule, in call order: the
tree is ordered by `ord` of its nodes' keys, holds a node for exactly the keys added,
and relates each node by `R` to the rules of its key. -/
structure KeyedHolds {α : Type} (keyOf : α → κ) (R : List β → α → Prop) (t : CRBTree α)
    (ins : List (κ × β)) : Prop where
  ordered : t.Ordered (fun e => ord (keyOf e))
  keys : ∀ k, (∃ e ∈ t.toList, keyOf e = k) ↔ k ∈ ins.map Prod.fst
  content : ∀ e ∈ t.toList, R (rulesFor ins (keyOf e)) e

/-- A search tree and the rules of the successful calls, where failed calls may have
left nodes with no rules: the tree is ordered, holds a node for every key added, and
relates each node by `R` to the rules of its key. -/
structure KeyedCovers {α : Type} (keyOf : α → κ) (R : List β → α → Prop) (t : CRBTree α)
    (ins : List (κ × β)) : Prop where
  ordered : t.Ordered (fun e => ord (keyOf e))
  covers : ∀ k ∈ ins.map Prod.fst, ∃ e ∈ t.toList, keyOf e = k
  content : ∀ e ∈ t.toList, R (rulesFor ins (keyOf e)) e

section KeyedHolds
variable {ord} {α : Type} {keyOf : α → κ} {R : List β → α → Prop} {t : CRBTree α}
  {ins : List (κ × β)}

theorem keyedHolds_nil : KeyedHolds ord keyOf R .nil [] := ⟨trivial, by simp, by simp⟩

theorem KeyedHolds.nodup (h : KeyedHolds ord keyOf R t ins) : (t.toList.map keyOf).Nodup :=
  List.Nodup.of_map ord (by simpa [List.map_map, Function.comp_def] using h.ordered.nodup)

theorem KeyedHolds.mem_keys (h : KeyedHolds ord keyOf R t ins) (k : κ) :
    k ∈ t.toList.map keyOf ↔ k ∈ ins.map Prod.fst := by
  rw [List.mem_map, h.keys k]

theorem KeyedHolds.rulesFor_eq_nil (h : KeyedHolds ord keyOf R t ins) {k : κ}
    (hno : ∀ e ∈ t.toList, keyOf e ≠ k) : rulesFor ins k = [] :=
  DbusBroker.rulesFor_eq_nil fun hk => by
    obtain ⟨e, he, hek⟩ := (h.keys k).mpr hk
    exact hno e he hek

variable {f : α → Int} {k : κ} {v : β}

/-- Changing the node the search finds, keeping its key, keeps `KeyedHolds` with the rule
appended, if any node of the key, changed, relates to the key's rules followed by the new
one. -/
theorem KeyedHolds.modify (hord : Function.Injective ord)
    (hf : Agrees (fun e => ord (keyOf e)) f (ord k)) (h : KeyedHolds ord keyOf R t ins) {g : α → α}
    (hg : ∀ x, keyOf (g x) = keyOf x) (hfound : t.findEntry f ≠ none)
    (hR : ∀ x ∈ t.toList, keyOf x = k → R (rulesFor ins k ++ [v]) (g x)) :
    KeyedHolds ord keyOf R (t.modify f g) (ins ++ [(k, v)]) := by
  obtain ⟨e, hfind⟩ := Option.ne_none_iff_exists'.mp hfound
  obtain ⟨he, hek⟩ := (findEntry_eq_some_iff hf h.ordered).mp hfind
  refine ⟨modify_ordered (fun x => by rw [hg]) h.ordered, fun k' => ?_, fun y hy => ?_⟩
  · rw [← List.mem_map, toList_modify_keys hg, List.mem_map, h.keys, List.map_append,
      List.mem_append, List.map_singleton, List.mem_singleton, iff_self_or]
    rintro rfl
    exact (h.keys _).mp ⟨e, he, hord hek⟩
  · rw [toList_modify hf g h.ordered] at hy
    obtain ⟨x, hx, rfl⟩ := List.mem_map.mp hy
    by_cases hxk : ord (keyOf x) = ord k
    · rw [if_pos hxk, hg, hord hxk, rulesFor_append, if_pos rfl]
      exact hR x hx (hord hxk)
    · rw [if_neg hxk, rulesFor_append, if_neg fun h' : k = keyOf x => hxk (by rw [h'])]
      exact h.content x hx

/-- Linking a node of the key at the slot the search ends on keeps `KeyedHolds` with the
rule appended, if the node relates to the one rule. -/
theorem KeyedHolds.add (h : KeyedHolds ord keyOf R t ins)
    (hf : Agrees (fun e => ord (keyOf e)) f (ord k)) (hnone : t.findEntry f = none)
    {n : α} (hn : keyOf n = k) (hR : R [v] n) :
    KeyedHolds ord keyOf R (t.add f n) (ins ++ [(k, v)]) := by
  have hno := (findEntry_eq_none_iff hf h.ordered).mp hnone
  have hno' : ∀ e ∈ t.toList, keyOf e ≠ k := fun e he hek => hno e he (hek ▸ rfl)
  refine ⟨add_ordered hf (by rw [hn]) h.ordered hno, fun k' => ?_, fun y hy => ?_⟩
  · simp only [mem_add hf n hno, List.map_append, List.map_singleton, List.mem_append,
      List.mem_singleton, ← h.keys]
    constructor
    · rintro ⟨y, rfl | hy, rfl⟩
      exacts [Or.inr hn, Or.inl ⟨y, hy, rfl⟩]
    · rintro (⟨y, hy, rfl⟩ | rfl)
      exacts [⟨y, Or.inr hy, rfl⟩, ⟨n, Or.inl rfl, hn⟩]
  · rcases (mem_add hf n hno y).mp hy with rfl | hy
    · rw [hn, rulesFor_append, if_pos rfl, h.rulesFor_eq_nil hno']
      exact hR
    · rw [rulesFor_append, if_neg fun h' => hno' y hy h'.symm]
      exact h.content y hy

theorem KeyedHolds.toCovers (h : KeyedHolds ord keyOf R t ins) : KeyedCovers ord keyOf R t ins :=
  ⟨h.ordered, fun k hk => (h.keys k).mpr hk, h.content⟩

theorem KeyedCovers.nodup (h : KeyedCovers ord keyOf R t ins) : (t.toList.map keyOf).Nodup :=
  List.Nodup.of_map ord (by simpa [List.map_map, Function.comp_def] using h.ordered.nodup)

theorem KeyedCovers.rulesFor_eq_nil (h : KeyedCovers ord keyOf R t ins) {k : κ}
    (hno : ∀ e ∈ t.toList, keyOf e ≠ k) : rulesFor ins k = [] :=
  DbusBroker.rulesFor_eq_nil fun hk => by
    obtain ⟨e, he, hek⟩ := h.covers k hk
    exact hno e he hek

omit [DecidableEq κ] in
theorem mem_keys_snoc {ins : List (κ × β)} {k k' : κ} {v : β}
    (h : k' ∈ (ins ++ [(k, v)]).map Prod.fst) : k' = k ∨ k' ∈ ins.map Prod.fst := by
  simpa [or_comm] using h

theorem rulesFor_snoc_of_ne {ins : List (κ × β)} {k k' : κ} {v : β} (h : k' ≠ k) :
    rulesFor (ins ++ [(k, v)]) k' = rulesFor ins k' := by
  rw [rulesFor_append, if_neg (Ne.symm h)]

/-- Rewriting the node the search finds, keeping its key, keeps `KeyedCovers` for rules
`ins'` that differ from `ins` only under that key, if the rewritten node relates to the
key's rules in `ins'`. -/
theorem KeyedCovers.modify (hord : Function.Injective ord)
    (hf : Agrees (fun e => ord (keyOf e)) f (ord k)) (h : KeyedCovers ord keyOf R t ins) {g : α → α}
    (hg : ∀ x, keyOf (g x) = keyOf x) (hfound : t.findEntry f ≠ none) {ins' : List (κ × β)}
    (hkeys : ∀ k' ∈ ins'.map Prod.fst, k' = k ∨ k' ∈ ins.map Prod.fst)
    (hrules : ∀ k', k' ≠ k → rulesFor ins' k' = rulesFor ins k')
    (hR : ∀ x ∈ t.toList, keyOf x = k → R (rulesFor ins' k) (g x)) :
    KeyedCovers ord keyOf R (t.modify f g) ins' := by
  obtain ⟨e, hfind⟩ := Option.ne_none_iff_exists'.mp hfound
  obtain ⟨he, hek⟩ := (findEntry_eq_some_iff hf h.ordered).mp hfind
  have hmem : ∀ x ∈ t.toList, ∃ y ∈ (t.modify f g).toList, keyOf y = keyOf x := fun x hx => by
    rw [toList_modify hf g h.ordered]
    refine ⟨_, List.mem_map_of_mem _ hx, ?_⟩
    split <;> simp only [hg]
  refine ⟨modify_ordered (fun x => by rw [hg]) h.ordered, fun k' hk' => ?_, fun y hy => ?_⟩
  · rcases hkeys k' hk' with rfl | hk'
    · obtain ⟨y, hy, hyk⟩ := hmem e he
      exact ⟨y, hy, hyk.trans (hord hek)⟩
    · obtain ⟨x, hx, rfl⟩ := h.covers k' hk'
      exact hmem x hx
  · rw [toList_modify hf g h.ordered] at hy
    obtain ⟨x, hx, rfl⟩ := List.mem_map.mp hy
    by_cases hxk : ord (keyOf x) = ord k
    · rw [if_pos hxk, hg, hord hxk]
      exact hR x hx (hord hxk)
    · rw [if_neg hxk, hrules _ fun h' => hxk (by rw [h'])]
      exact h.content x hx

/-- Linking a node of a key the tree does not hold keeps `KeyedCovers` for rules `ins'`
that differ from `ins` only under that key, if the node relates to the key's rules in
`ins'`. -/
theorem KeyedCovers.add (h : KeyedCovers ord keyOf R t ins)
    (hf : Agrees (fun e => ord (keyOf e)) f (ord k)) (hnone : t.findEntry f = none) {n : α} (hn : keyOf n = k)
    {ins' : List (κ × β)} (hkeys : ∀ k' ∈ ins'.map Prod.fst, k' = k ∨ k' ∈ ins.map Prod.fst)
    (hrules : ∀ k', k' ≠ k → rulesFor ins' k' = rulesFor ins k') (hR : R (rulesFor ins' k) n) :
    KeyedCovers ord keyOf R (t.add f n) ins' := by
  have hno := (findEntry_eq_none_iff hf h.ordered).mp hnone
  have hno' : ∀ e ∈ t.toList, keyOf e ≠ k := fun e he hek => hno e he (hek ▸ rfl)
  refine ⟨add_ordered hf (by rw [hn]) h.ordered hno, fun k' hk' => ?_, fun y hy => ?_⟩
  · rcases hkeys k' hk' with rfl | hk'
    · exact ⟨n, (mem_add hf n hno n).mpr (Or.inl rfl), hn⟩
    · obtain ⟨e, he, hek⟩ := h.covers k' hk'
      exact ⟨e, (mem_add hf n hno e).mpr (Or.inr he), hek⟩
  · rcases (mem_add hf n hno y).mp hy with rfl | hy
    · rw [hn]; exact hR
    · rw [hrules _ (hno' y hy)]
      exact h.content y hy

end KeyedHolds

/-- The tree that `policyAddEntry` calls adding the rules `ins` (key and decision,
in call order) built: ordered by `ord` of the keys, with an entry for exactly the
keys added, each holding the `keyedDecision` of its key's rules. -/
def Holds (t : CRBTree (PolicyEntry κ)) (ins : List (κ × PolicyDecision)) : Prop :=
  KeyedHolds ord PolicyEntry.key (fun ds e => keyedDecision ds = some e.decision) t ins

variable {ord}

theorem holds_nil : Holds ord .nil [] := keyedHolds_nil

theorem Holds.decision {t : CRBTree (PolicyEntry κ)} {ins : List (κ × PolicyDecision)}
    (h : Holds ord t ins) : ∀ e ∈ t.toList, keyedDecision (rulesFor ins e.key) = some e.decision :=
  h.content

/-- A lookup under `k` returns the `keyedDecision` of the rules added under `k`. -/
theorem Holds.findEntry_decision (hord : Function.Injective ord) {t : CRBTree (PolicyEntry κ)}
    {ins : List (κ × PolicyDecision)} (h : Holds ord t ins) {f : PolicyEntry κ → Int} {k : κ}
    (hf : Agrees (fun e => ord e.key) f (ord k)) :
    (t.findEntry f).map (·.decision) = keyedDecision (rulesFor ins k) := by
  cases hfind : t.findEntry f with
  | some e =>
    obtain ⟨he, hek⟩ := (findEntry_eq_some_iff hf h.ordered).mp hfind
    rw [← hord hek]
    exact (h.decision e he).symm
  | none =>
    have hno := (findEntry_eq_none_iff hf h.ordered).mp hfind
    simp [KeyedHolds.rulesFor_eq_nil h fun e he hek => hno e he (hek ▸ rfl), keyedDecision]

/-- A call of `policyAddEntry` that returns 0 keeps `Holds`, with its
rule appended. -/
theorem Holds.step (hord : Function.Injective ord) {t t' : CRBTree (PolicyEntry κ)}
    {ins : List (κ × PolicyDecision)} (h : Holds ord t ins) {cmp : PolicyEntry κ → Int}
    {k : κ} {deny : Bool} {priority : UInt64} {alloc : Bool}
    (hcmp : Agrees (fun e => ord e.key) cmp (ord k))
    (hadd : policyAddEntry cmp t deny priority (policyEntryNew cmp t k deny priority alloc) =
      (0, t')) :
    Holds ord t' (ins ++ [(k, ⟨deny, priority⟩)]) := by
  unfold policyAddEntry policyEntryNew at hadd
  split at hadd
  · next e hfind =>
    cases hadd
    refine KeyedHolds.modify hord hcmp h (fun x => by split <;> rfl) (by simp [hfind])
      fun x hx hxk => ?_
    rw [keyedDecision_append, ← hxk, h.decision x hx]
    simp only [Option.elim, updateStrict]
    split <;> rfl
  · next hfind =>
    split at hadd
    · cases hadd
      exact h.add hcmp hfind rfl rfl
    · cases hadd

end Holds

end DbusBroker
