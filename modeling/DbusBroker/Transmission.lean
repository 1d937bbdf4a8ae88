import DbusBroker.CString
import DbusBroker.KeyedStore

/- The transmission policy: may a message pass between a subject and its peer?

   A `TransmissionPolicy` files its entries under the name of the peer they are
   about, in `policy_by_name_tree` (one `TransmissionPolicyByName` node per name, with
   its `entry_list`), or in `wildcard_entry_list` when they name no peer. A check walks
   the lists of the names the subject primary-owns ("org.freedesktop.DBus" for the
   driver) and then the wildcard list, and every entry that admits the request and is
   not outranked replaces the decision.

   Memory is modelled as far as the code reads it. `transmission_policy_entry_new`
   sets `interface` and `member` to NULL when their argument is NULL, but has no such
   `else` for `error` and `path`: those fields keep what `malloc` left
   (`EntryMemory.error`, `.path`). `transmission_policy_by_name_new` copies the
   `strlen(name)` bytes of the name and not its NUL, so the node's name reads as the
   name followed by whatever bytes come next (`TransmissionAlloc.byName`).

   What is proved:
     1. `transmissionPolicyEntryNew_layout` — the bytes after an entry's header end up
        holding exactly the present fields, each with its NUL, one after the other in
        the order interface, member, error, path; each present field reads back as
        its argument, and each absent field holds NULL, or for `error` and `path`
        what `malloc` left.
     2. `transmissionPolicyEntryNew_stale_error` — an entry added with `error` NULL
        in memory whose `error` field points at "x" requires the error "x": it
        admits a request with that error and not one without.
     3. `transmissionPolicyUpdateDecision_eq` — the walk of a list folds `update`
        over the decisions of the entries that admit the request.

   Correspondence (C ↔ Lean):
     `transmission_policy_entry_new`             ↔ `transmissionPolicyEntryNew`
     its four `if (field) ... stpcpy` blocks      ↔ `copyField`
     `transmission_policy_by_name_new`           ↔ `transmissionPolicyByNameNew`
     `transmission_policy_by_name_compare`       ↔ `transmissionPolicyByNameCompare`
     `tranmsission_policy_add_entry`             ↔ `tranmsissionPolicyAddEntry`
     `transmission_policy_update_decision`       ↔ `transmissionPolicyUpdateDecision`
     `transmission_policy_update_decision_by_name` ↔ `transmissionPolicyUpdateDecisionByName`
     `transmission_policy_check_allowed`         ↔ `transmissionPolicyCheckAllowed`
-/

namespace DbusBroker

open PolicyDecision CRBTree

/-! ## Entries -/

/-- A `const char *` field of a `TransmissionPolicyEntry`: NULL, a pointer into the
bytes allocated after the entry's header (by offset), or a pointer into other memory,
modelled by the C string it points to. -/
inductive FieldPtr where
  | null
  | buffer (offset : Nat)
  | other (s : CStr)
  deriving DecidableEq, Repr

/-- The memory `malloc` returns for an entry, as far as the code reads it before
writing it: the `error` and `path` fields of the header, and the bytes after the
header. -/
structure EntryMemory where
  error : FieldPtr
  path : FieldPtr
  buffer : Nat → UInt8

/-- A `TransmissionPolicyEntry`: the bytes allocated after its header, its four
field pointers, its type and its decision. -/
structure TransmissionPolicyEntry where
  buffer : List UInt8
  interface : FieldPtr
  member : FieldPtr
  error : FieldPtr
  path : FieldPtr
  type : Int
  decision : PolicyDecision
  deriving DecidableEq, Repr

/-- The C string a field of `entry` points to; `none` for NULL. -/
def TransmissionPolicyEntry.read (entry : TransmissionPolicyEntry) : FieldPtr → Option CStr
  | .null => none
  | .buffer offset => some (cstrAt entry.buffer offset)
  | .other s => some s

/-- `n_interface`, `n_member`, `n_error` and `n_path`: `strlen(field) + 1`, or 0 for
NULL. -/
def fieldSize : Option CStr → Nat
  | none => 0
  | some s => s.length + 1

/-- One field's copy in `transmission_policy_entry_new`: `if (field) { entry->field =
buffer; buffer = stpcpy(buffer, field) + 1; }`, on the bytes after the header and the
index `buffer` points at. `absent` is what the field holds when the argument is NULL:
`interface` and `member` have an `else` that sets NULL, `error` and `path` have none
and keep what `malloc` left. -/
def copyField (absent : FieldPtr) (field : Option CStr) (buf : List UInt8 × Nat) :
    FieldPtr × (List UInt8 × Nat) :=
  match field with
  | none => (absent, buf)
  | some s =>
    let (bytes, nul) := stpcpy buf.1 buf.2 s
    (.buffer buf.2, (bytes, nul + 1))

/-- `transmission_policy_entry_new`: the entry built in the memory `malloc` returned,
linked at the tail of `policy`; `none` is a failed `malloc`. -/
def transmissionPolicyEntryNew (policy : List TransmissionPolicyEntry)
    (interface member error path : Option CStr) (type : Int) (deny : Bool) (priority : UInt64) :
    Option EntryMemory → Int × List TransmissionPolicyEntry
  | none => (-ENOMEM, policy)
  | some mem =>
    let n := fieldSize interface + fieldSize member + fieldSize error + fieldSize path
    let (interface, buf) := copyField .null interface ((List.range n).map mem.buffer, 0)
    let (member, buf) := copyField .null member buf
    let (error, buf) := copyField mem.error error buf
    let (path, buf) := copyField mem.path path buf
    (0, policy ++ [⟨buf.1, interface, member, error, path, type, ⟨deny, priority⟩⟩])

/-! ## Names and the policy -/

/-- A `TransmissionPolicyByName`: its name as the code reads it back, and its
`entry_list`. -/
structure TransmissionPolicyByName where
  name : CStr
  entryList : List TransmissionPolicyEntry
  deriving DecidableEq, Repr

/-- `transmission_policy_by_name_new` for `name`, in memory where the bytes that
follow the copied name, up to the first NUL, are `after`: `memcpy` copies the
`strlen(name)` bytes of the name and not its NUL, so `by_name->name` reads as `name`
followed by `after`. The caller links the node at the slot. -/
def transmissionPolicyByNameNew (name after : CStr) : TransmissionPolicyByName :=
  ⟨name ++ after, []⟩

/-- The state of a `TransmissionPolicy`. -/
structure TransmissionPolicy where
  policyByNameTree : CRBTree TransmissionPolicyByName
  wildcardEntryList : List TransmissionPolicyEntry

/-- `transmission_policy_init`. -/
def transmissionPolicyInit : TransmissionPolicy := ⟨.nil, []⟩

/-- `transmission_policy_by_name_compare`: `strcmp` of the name against the node's. -/
def transmissionPolicyByNameCompare (name : CStr) (byName : TransmissionPolicyByName) : Int :=
  strcmp name.bytes byName.name.bytes

/-- What the `malloc` calls of one `tranmsission_policy_add_entry` return: for a new
`TransmissionPolicyByName`, `none` on failure or the bytes that follow the copied
name up to the first NUL; for the entry, `none` on failure or its memory. -/
structure TransmissionAlloc where
  byName : Option CStr
  entry : Option EntryMemory

/-- `tranmsission_policy_add_entry`. An entry with a name goes to the list of the
node the name finds, or of a new node linked at the slot the search ended on (the
node is linked even when the entry's `malloc` then fails); an entry without one goes
to the wildcard list. -/
def tranmsissionPolicyAddEntry (policy : TransmissionPolicy)
    (name interface member error path : Option CStr) (type : Int) (deny : Bool)
    (priority : UInt64) (alloc : TransmissionAlloc) : Int × TransmissionPolicy :=
  let entryNew := fun list =>
    transmissionPolicyEntryNew list interface member error path type deny priority alloc.entry
  match name with
  | none =>
    let (r, wildcardEntryList) := entryNew policy.wildcardEntryList
    (r, { policy with wildcardEntryList })
  | some name =>
    let cmp := transmissionPolicyByNameCompare name
    match policy.policyByNameTree.findEntry cmp with
    | some byName =>
      let (r, entryList) := entryNew byName.entryList
      (r, { policy with
        policyByNameTree := policy.policyByNameTree.modify cmp ({ · with entryList }) })
    | none =>
      match alloc.byName with
      | none => (-ENOMEM, policy)
      | some after =>
        let byName := transmissionPolicyByNameNew name after
        let (r, entryList) := entryNew byName.entryList
        (r, { policy with
          policyByNameTree := policy.policyByNameTree.add cmp { byName with entryList } })

/-! ## The check -/

/-- One field's test in `transmission_policy_update_decision`: `if (entry->field) if
(!field || strcmp(entry->field, field)) continue;`, true when the entry's field
rules the request out. -/
def fieldSkips : Option CStr → Option CStr → Bool
  | none, _ => false
  | some _, none => true
  | some e, some f => strcmp e.bytes f.bytes ≠ 0

/-- `transmission_policy_update_decision`: the walk of an entry list. An entry of
lower priority than the decision so far is skipped, and so is one whose interface,
member, error, path or non-zero type rules the request out; any other replaces the
decision. -/
def transmissionPolicyUpdateDecision : List TransmissionPolicyEntry →
    (interface member error path : Option CStr) → Int → PolicyDecision → PolicyDecision
  | [], _, _, _, _, _, decision => decision
  | entry :: policy, interface, member, error, path, type, decision =>
    transmissionPolicyUpdateDecision policy interface member error path type
      (if entry.decision.priority < decision.priority then decision
      else if fieldSkips (entry.read entry.interface) interface then decision
      else if fieldSkips (entry.read entry.member) member then decision
      else if fieldSkips (entry.read entry.error) error then decision
      else if fieldSkips (entry.read entry.path) path then decision
      else if entry.type ≠ 0 ∧ entry.type ≠ type then decision
      else entry.decision)

/-- `transmission_policy_update_decision_by_name`: the walk of the list of the node
the name finds, if any. -/
def transmissionPolicyUpdateDecisionByName (policy : CRBTree TransmissionPolicyByName)
    (name : CStr) (interface member error path : Option CStr) (type : Int)
    (decision : PolicyDecision) : PolicyDecision :=
  match policy.findEntry (transmissionPolicyByNameCompare name) with
  | none => decision
  | some byName =>
    transmissionPolicyUpdateDecision byName.entryList interface member error path type decision

/-- A `NameOwnership` of the subject's `owned_names`: the name, and whether
`name_ownership_is_primary` holds of it. -/
structure NameOwnership where
  name : CStr
  primary : Bool
  deriving DecidableEq, Repr

/-- The name the driver is checked under, "org.freedesktop.DBus". -/
def driverName : CStr := ⟨"org.freedesktop.DBus".toList.map (·.toNat.toUInt8), by decide⟩

/-- `transmission_policy_check_allowed`. The subject is `none` for the driver (a NULL
`Peer *`), or the ownerships of the peer's `ownership_tree`, in the tree's order. -/
def transmissionPolicyCheckAllowed (policy : TransmissionPolicy)
    (subject : Option (List NameOwnership)) (interface member error path : Option CStr)
    (type : Int) : Int :=
  let decision := match subject with
    | some ownershipTree => ownershipTree.foldl (fun decision ownership =>
        if ownership.primary then
          transmissionPolicyUpdateDecisionByName policy.policyByNameTree ownership.name interface
            member error path type decision
        else decision) neutral
    | none => transmissionPolicyUpdateDecisionByName policy.policyByNameTree driverName interface
        member error path type neutral
  let decision := transmissionPolicyUpdateDecision policy.wildcardEntryList interface member error
    path type decision
  if decision.deny then POLICY_E_ACCESS_DENIED else 0

/-! ## Building an entry -/

/-- The bytes a field's copy writes: the string and its NUL, or nothing. -/
def fieldBytes : Option CStr → List UInt8
  | none => []
  | some s => s.bytes ++ [0]

/-- Where a field points after its copy: at `offset` if the argument is present,
else at `absent`. -/
def fieldPtr (absent : FieldPtr) : Option CStr → Nat → FieldPtr
  | none, _ => absent
  | some _, offset => .buffer offset

@[simp] theorem length_fieldBytes (field : Option CStr) : (fieldBytes field).length = fieldSize field := by
  cases field <;> simp [fieldBytes, fieldSize, CStr.length]

theorem copyField_eq (absent : FieldPtr) (field : Option CStr) (pre rest : List UInt8) :
    copyField absent field (pre ++ rest, pre.length) = (fieldPtr absent field pre.length,
      (pre ++ fieldBytes field ++ rest.drop (fieldSize field), (pre ++ fieldBytes field).length)) := by
  cases field with
  | none => simp [copyField, fieldPtr, fieldBytes, fieldSize]
  | some s =>
    simp only [copyField, stpcpy_append, fieldPtr, fieldBytes, fieldSize, List.length_append,
      List.length_singleton, CStr.length, List.append_assoc, Nat.add_assoc]

theorem copyField_start (absent : FieldPtr) (field : Option CStr) (rest : List UInt8) :
    copyField absent field (rest, 0) = (fieldPtr absent field 0,
      (fieldBytes field ++ rest.drop (fieldSize field), (fieldBytes field).length)) := by
  simpa using copyField_eq absent field [] rest

theorem transmissionPolicyEntryNew_some (policy : List TransmissionPolicyEntry)
    (interface member error path : Option CStr) (type : Int) (deny : Bool) (priority : UInt64)
    (mem : EntryMemory) :
    transmissionPolicyEntryNew policy interface member error path type deny priority (some mem) =
      (0, policy ++ [⟨fieldBytes interface ++ fieldBytes member ++ fieldBytes error ++ fieldBytes path,
        fieldPtr .null interface 0, fieldPtr .null member (fieldSize interface),
        fieldPtr mem.error error (fieldSize interface + fieldSize member),
        fieldPtr mem.path path (fieldSize interface + fieldSize member + fieldSize error),
        type, ⟨deny, priority⟩⟩]) := by
  simp only [transmissionPolicyEntryNew, copyField_start, copyField_eq, List.drop_drop]
  rw [List.drop_eq_nil_of_le (by simp), List.append_nil]
  simp [Nat.add_assoc]

theorem read_fieldPtr_some {entry : TransmissionPolicyEntry} {absent : FieldPtr} {s : CStr}
    {n : Nat} (pre rest : List UInt8) (hbuf : entry.buffer = pre ++ fieldBytes (some s) ++ rest)
    (hn : n = pre.length) : entry.read (fieldPtr absent (some s) n) = some s := by
  simp only [fieldPtr, TransmissionPolicyEntry.read, hbuf, hn, fieldBytes, List.append_assoc,
    List.singleton_append, cstrAt_append]

theorem read_fieldPtr {entry : TransmissionPolicyEntry} {field : Option CStr} {n : Nat}
    (pre rest : List UInt8) (hbuf : entry.buffer = pre ++ fieldBytes field ++ rest)
    (hn : n = pre.length) : entry.read (fieldPtr .null field n) = field := by
  cases field with
  | none => rfl
  | some s => exact read_fieldPtr_some pre rest hbuf hn

/-- Whatever the memory `malloc` returns, the bytes after the header end up holding
exactly the present fields, each with its NUL, one after the other in the order interface,
member, error, path; each present field reads back as its argument; an absent `interface`
or `member` is NULL, while an absent `error` or `path` keeps what `malloc` left in the
field; type and decision are the arguments. -/
theorem transmissionPolicyEntryNew_layout (policy : List TransmissionPolicyEntry)
    (interface member error path : Option CStr) (type : Int) (deny : Bool) (priority : UInt64)
    (mem : EntryMemory) :
    ∃ e, transmissionPolicyEntryNew policy interface member error path type deny priority
        (some mem) = (0, policy ++ [e]) ∧
      e.buffer = fieldBytes interface ++ fieldBytes member ++ fieldBytes error ++ fieldBytes path ∧
      e.read e.interface = interface ∧ e.read e.member = member ∧
      (error = none → e.error = mem.error) ∧ (∀ s, error = some s → e.read e.error = some s) ∧
      (path = none → e.path = mem.path) ∧ (∀ s, path = some s → e.read e.path = some s) ∧
      e.type = type ∧ e.decision = ⟨deny, priority⟩ := by
  refine ⟨_, transmissionPolicyEntryNew_some .., rfl,
    read_fieldPtr [] (fieldBytes member ++ fieldBytes error ++ fieldBytes path) (by simp) rfl,
    read_fieldPtr (fieldBytes interface) (fieldBytes error ++ fieldBytes path) (by simp) (by simp),
    fun h => by rw [h]; rfl, fun s h => ?_, fun h => by rw [h]; rfl, fun s h => ?_, rfl, rfl⟩
  · subst h
    dsimp only
    exact read_fieldPtr_some (fieldBytes interface ++ fieldBytes member) (fieldBytes path)
      (by simp) (by simp)
  · subst h
    dsimp only
    exact read_fieldPtr_some (fieldBytes interface ++ fieldBytes member ++ fieldBytes error) []
      (by simp) (by simp [Nat.add_assoc])

/-- Every field of an entry built in memory whose `error` and `path` fields are NULL
reads back as its argument. -/
theorem transmissionPolicyEntryNew_read (policy : List TransmissionPolicyEntry)
    (interface member error path : Option CStr) (type : Int) (deny : Bool) (priority : UInt64)
    {mem : EntryMemory} (herror : mem.error = .null) (hpath : mem.path = .null) :
    ∃ e, transmissionPolicyEntryNew policy interface member error path type deny priority
      (some mem) = (0, policy ++ [e]) ∧ e.read e.interface = interface ∧
      e.read e.member = member ∧ e.read e.error = error ∧ e.read e.path = path ∧
      e.type = type ∧ e.decision = ⟨deny, priority⟩ := by
  refine ⟨_, transmissionPolicyEntryNew_some .., ?_, ?_, ?_, ?_, rfl, rfl⟩ <;>
    simp only [herror, hpath]
  · exact read_fieldPtr [] (fieldBytes member ++ fieldBytes error ++ fieldBytes path) (by simp) rfl
  · exact read_fieldPtr (fieldBytes interface) (fieldBytes error ++ fieldBytes path)
      (by simp) (by simp)
  · exact read_fieldPtr (fieldBytes interface ++ fieldBytes member) (fieldBytes path)
      (by simp) (by simp)
  · exact read_fieldPtr (fieldBytes interface ++ fieldBytes member ++ fieldBytes error) []
      (by simp) (by simp [Nat.add_assoc])

/-- An entry added with every field NULL, in memory whose `error` field points at
"x": the entry keeps that pointer, and so admits a request with the error "x" and
not the same request without an error. -/
theorem transmissionPolicyEntryNew_stale_error :
    (transmissionPolicyEntryNew [] none none none none 0 true 1
      (some ⟨.other ⟨[120], by decide⟩, .null, fun _ => 0⟩)).2 =
      [⟨[], .null, .null, .other ⟨[120], by decide⟩, .null, 0, ⟨true, 1⟩⟩] ∧
    transmissionPolicyUpdateDecision [⟨[], .null, .null, .other ⟨[120], by decide⟩, .null, 0,
      ⟨true, 1⟩⟩] none none none none 0 neutral = neutral ∧
    transmissionPolicyUpdateDecision [⟨[], .null, .null, .other ⟨[120], by decide⟩, .null, 0,
      ⟨true, 1⟩⟩] none none (some ⟨[120], by decide⟩) none 0 neutral = ⟨true, 1⟩ :=
  ⟨rfl, rfl, rfl⟩

/-! ## The walk of a list -/

/-- What an entry matches on and decides, as the walk reads it: its four fields as C
strings, its type and its decision. -/
structure TransmissionRule where
  interface : Option CStr
  member : Option CStr
  error : Option CStr
  path : Option CStr
  type : Int
  decision : PolicyDecision
  deriving DecidableEq, Repr

/-- The rule an entry holds. -/
def TransmissionPolicyEntry.rule (entry : TransmissionPolicyEntry) : TransmissionRule :=
  ⟨entry.read entry.interface, entry.read entry.member, entry.read entry.error,
    entry.read entry.path, entry.type, entry.decision⟩

@[simp] theorem TransmissionPolicyEntry.rule_decision (entry : TransmissionPolicyEntry) :
    entry.rule.decision = entry.decision := rfl

/-- Whether a rule admits the request: none of its fields, nor its type, rules the
request out. -/
def TransmissionRule.admits (rule : TransmissionRule) (interface member error path : Option CStr)
    (type : Int) : Bool :=
  !fieldSkips rule.interface interface && !fieldSkips rule.member member &&
    !fieldSkips rule.error error && !fieldSkips rule.path path && (rule.type == 0 || rule.type == type)

/-- The admitted decisions of a list of rules, in order. -/
def admitted (rules : List TransmissionRule) (interface member error path : Option CStr)
    (type : Int) : List PolicyDecision :=
  (rules.filter (·.admits interface member error path type)).map (·.decision)

theorem updateStep_eq (e : TransmissionPolicyEntry) (interface member error path : Option CStr)
    (type : Int) (d : PolicyDecision) :
    (if e.decision.priority < d.priority then d
      else if fieldSkips (e.read e.interface) interface then d
      else if fieldSkips (e.read e.member) member then d
      else if fieldSkips (e.read e.error) error then d
      else if fieldSkips (e.read e.path) path then d
      else if e.type ≠ 0 ∧ e.type ≠ type then d
      else e.decision) =
    if e.rule.admits interface member error path type then d.update e.decision else d := by
  simp only [TransmissionRule.admits, TransmissionPolicyEntry.rule, update]
  by_cases hp : e.decision.priority < d.priority
  · simp [hp]
  · cases fieldSkips (e.read e.interface) interface <;> cases fieldSkips (e.read e.member) member <;>
      cases fieldSkips (e.read e.error) error <;> cases fieldSkips (e.read e.path) path <;>
      simp [hp]
    -- every field test passes: the type decides
    by_cases ht : e.type = 0 <;> simp [ht]

/-- It folds `update` over the decisions of the entries that admit the request, in list
order. -/
theorem transmissionPolicyUpdateDecision_eq (policy : List TransmissionPolicyEntry)
    (interface member error path : Option CStr) (type : Int) (d : PolicyDecision) :
    transmissionPolicyUpdateDecision policy interface member error path type d =
      (admitted (policy.map (·.rule)) interface member error path type).foldl update d := by
  induction policy generalizing d with
  | nil => rfl
  | cons e policy ih =>
    rw [transmissionPolicyUpdateDecision, ih, updateStep_eq]
    by_cases ha : e.rule.admits interface member error path type <;> simp [admitted, ha]

end DbusBroker
