import DbusBroker.Decision

/- The policy parser: expat's element events, the handlers `policy.c` registers for
   them, the loop that feeds the policy file to expat, and `policy_parse`, which
   drives the loop and expat's final parse.

   The handlers only print. A `PolicyParser` counts the depth of the element being
   parsed (`level`) and remembers whether a blank line is due before the next block
   (`needs_linebreak`). A `<policy>` child of the root prints its attributes and, at its
   end, a closing line; a `<deny>` or `<allow>` grandchild of the root prints its
   attributes; nothing else prints. Output is the list of the strings the `fprintf`
   calls write, one per call.

   What is proved:
     1. `runHandlers_document` — over the events of any document, the handlers print
        exactly the `layout` of the `topItems` of the root's children: the level
        counter tracks the depth, every subtree below the grandchildren prints
        nothing (`runHandlers_deep`), and the level is back to 0 at the end.
     2. `policyParserParseFile_reads` — for every `XML_Parse`, the read loop feeds the
        file to expat in order, in 1024-byte pieces and a last shorter one, until a
        piece is rejected (`feedPieces`), and returns `POLICY_E_INVALID_XML` then; else
        0, or `-EIO` when the read error strikes at a multiple of 1024 bytes: a read
        error after a short read is not reported.
     3. `policyParse_eq` — `policy_parse` fails only when the file cannot be opened
        or read; an XML error is printed and the result is 0.

   Correspondence (C ↔ Lean):
     `policy_parser_handler_policy`        ↔ `policyParserHandlerPolicy`
     `policy_parser_handler_deny`, `_allow` ↔ `policyParserHandlerRule` with the header
     `policy_parser_handler_start`, `_end` ↔ `policyParserHandlerStart`, `policyParserHandlerEnd`
     expat's element callbacks            ↔ `runHandlers` over `XmlElement.events`
     `policy_parser_parse_file`           ↔ `policyParserParseFile`, the loop `parseChunks`
     `policy_parser_finalize`             ↔ `policyParserFinalize`
     `policy_print_parsing_error`         ↔ `policyPrintParsingError`
     `policy_parse`                       ↔ `policyParse`
     expat's parser object                ↔ `Expat` over its state
-/

namespace DbusBroker

/-! ## The handlers -/

/-- The fields of a `PolicyParser` the handlers read and write: the depth of the
element being parsed, and whether a blank line is due before the next block. -/
structure PolicyParser where
  level : Int
  needsLinebreak : Bool
  deriving DecidableEq, Repr

/-- `POLICY_PARSER_NULL`: the zeroed parser. -/
def policyParserNull : PolicyParser := ⟨0, false⟩

/-- The `fprintf` calls of the attribute loop of `policy_parser_handler_policy`:
` name` and `=value` for each attribute. -/
def policyAttributes (attributes : List (String × String)) : List String :=
  attributes.flatMap fun a => [" " ++ a.1, "=" ++ a.2]

/-- The `fprintf` calls of the attribute loop of `policy_parser_handler_deny` and
`policy_parser_handler_allow`: `        name` and `=value` and a newline for each
attribute. -/
def ruleAttributes (attributes : List (String × String)) : List String :=
  attributes.flatMap fun a => ["        " ++ a.1, "=" ++ a.2 ++ "\n"]

/-- The blank line a handler prints first when one is due. -/
def linebreak (parser : PolicyParser) : List String :=
  if parser.needsLinebreak then ["\n"] else []

/-- `policy_parser_handler_policy`. -/
def policyParserHandlerPolicy (parser : PolicyParser) (attributes : List (String × String)) :
    PolicyParser × List String :=
  ({ parser with needsLinebreak := false },
    linebreak parser ++ ["<policy"] ++ policyAttributes attributes ++ [">\n"])

/-- The body of `policy_parser_handler_deny` and `policy_parser_handler_allow`, which
differ only in the header they print. -/
def policyParserHandlerRule (header : String) (parser : PolicyParser)
    (attributes : List (String × String)) : PolicyParser × List String :=
  ({ parser with needsLinebreak := true }, linebreak parser ++ [header] ++ ruleAttributes attributes)

/-- `policy_parser_handler_deny`. -/
def policyParserHandlerDeny : PolicyParser → List (String × String) → PolicyParser × List String :=
  policyParserHandlerRule "    DENY:\n"

/-- `policy_parser_handler_allow`. -/
def policyParserHandlerAllow : PolicyParser → List (String × String) → PolicyParser × List String :=
  policyParserHandlerRule "    ALLOW:\n"

/-- `policy_parser_handler_start`: the `switch (parser->level++)`. -/
def policyParserHandlerStart (parser : PolicyParser) (name : String)
    (attributes : List (String × String)) : PolicyParser × List String :=
  let level := parser.level
  let parser := { parser with level := level + 1 }
  if level = 1 then
    if name = "policy" then policyParserHandlerPolicy parser attributes else (parser, [])
  else if level = 2 then
    if name = "deny" then policyParserHandlerDeny parser attributes
    else if name = "allow" then policyParserHandlerAllow parser attributes
    else (parser, [])
  else (parser, [])

/-- `policy_parser_handler_end`. -/
def policyParserHandlerEnd (parser : PolicyParser) (name : String) : PolicyParser × List String :=
  let parser := { parser with level := parser.level - 1 }
  if parser.level = 1 ∧ name = "policy" then
    ({ parser with needsLinebreak := true }, ["</policy>\n"])
  else (parser, [])

/-! ## Documents and their events -/

/-- An element of the document as expat reports it: its name, its attributes (name
and value, in document order) and its children. -/
inductive XmlElement where
  | element (name : String) (attributes : List (String × String)) (children : List XmlElement)
  deriving Repr

/-- An event expat reports: the start of an element with its attributes, or its end. -/
inductive XmlEvent where
  | start (name : String) (attributes : List (String × String))
  | stop (name : String)
  deriving DecidableEq, Repr

mutual
/-- The events of an element: its start, its children's, its end. -/
def XmlElement.events : XmlElement → List XmlEvent
  | .element name attributes children => .start name attributes :: eventsList children ++ [.stop name]

/-- The events of a list of elements, one after another. -/
def eventsList : List XmlElement → List XmlEvent
  | [] => []
  | e :: es => e.events ++ eventsList es
end

/-- The handler expat calls for an event. -/
def policyParserHandle (parser : PolicyParser) : XmlEvent → PolicyParser × List String
  | .start name attributes => policyParserHandlerStart parser name attributes
  | .stop name => policyParserHandlerEnd parser name

/-- The handlers called for the events in order: the parser after them, and what they
printed. -/
def runHandlers (parser : PolicyParser) : List XmlEvent → PolicyParser × List String
  | [] => (parser, [])
  | ev :: evs =>
    let (parser, out) := policyParserHandle parser ev
    let (parser, out') := runHandlers parser evs
    (parser, out ++ out')

theorem runHandlers_append (parser : PolicyParser) (evs evs' : List XmlEvent) :
    runHandlers parser (evs ++ evs') =
      ((runHandlers (runHandlers parser evs).1 evs').1,
        (runHandlers parser evs).2 ++ (runHandlers (runHandlers parser evs).1 evs').2) := by
  induction evs generalizing parser with
  | nil => rfl
  | cons ev evs ih => simp [runHandlers, ih]

theorem runHandlers_events (parser : PolicyParser) (name : String)
    (attributes : List (String × String)) (children : List XmlElement) :
    runHandlers parser (XmlElement.element name attributes children).events =
      let (p₁, o₁) := policyParserHandlerStart parser name attributes
      let (p₂, o₂) := runHandlers p₁ (eventsList children)
      let (p₃, o₃) := policyParserHandlerEnd p₂ name
      (p₃, o₁ ++ o₂ ++ o₃) := by
  simp [XmlElement.events, runHandlers, runHandlers_append, policyParserHandle]

/-! ## What the handlers print -/

/-- What the parser prints a block for: the opening and the closing of a `<policy>`
element, and a rule with its header. -/
inductive PrintItem where
  | policyOpen (attributes : List (String × String))
  | rule (header : String) (attributes : List (String × String))
  | policyClose
  deriving DecidableEq, Repr

/-- How the blocks are written, `nl` being whether a blank line is due: a blank line
before an opening or a rule when one is due, and one due after a rule or a closing. -/
def layout : Bool → List PrintItem → List String
  | _, [] => []
  | nl, .policyOpen attributes :: items =>
    (if nl then ["\n"] else []) ++ ["<policy"] ++ policyAttributes attributes ++ [">\n"] ++
      layout false items
  | nl, .rule header attributes :: items =>
    (if nl then ["\n"] else []) ++ [header] ++ ruleAttributes attributes ++ layout true items
  | _, .policyClose :: items => "</policy>\n" :: layout true items

/-- Whether a blank line is due after the blocks, `nl` being whether one was due before. -/
def layoutLinebreak : Bool → List PrintItem → Bool
  | nl, [] => nl
  | _, .policyOpen _ :: items => layoutLinebreak false items
  | _, .rule _ _ :: items => layoutLinebreak true items
  | _, .policyClose :: items => layoutLinebreak true items

theorem layout_append (nl : Bool) (xs ys : List PrintItem) :
    layout nl (xs ++ ys) = layout nl xs ++ layout (layoutLinebreak nl xs) ys := by
  induction xs generalizing nl with
  | nil => rfl
  | cons x xs ih => cases x <;> simp [layout, layoutLinebreak, ih]

theorem layoutLinebreak_append (nl : Bool) (xs ys : List PrintItem) :
    layoutLinebreak nl (xs ++ ys) = layoutLinebreak (layoutLinebreak nl xs) ys := by
  induction xs generalizing nl with
  | nil => rfl
  | cons x xs ih => cases x <;> simp [layoutLinebreak, ih]

/-- The block a grandchild of the root prints: its rule, if it is a `<deny>` or an
`<allow>`. -/
def ruleItems : XmlElement → List PrintItem
  | .element name attributes _ =>
    if name = "deny" then [.rule "    DENY:\n" attributes]
    else if name = "allow" then [.rule "    ALLOW:\n" attributes]
    else []

/-- The blocks a child of the root prints: a `<policy>` its opening, the rules among
its children and its closing; any other element the rules among its children. -/
def topItems : XmlElement → List PrintItem
  | .element name attributes children =>
    if name = "policy" then .policyOpen attributes :: children.flatMap ruleItems ++ [.policyClose]
    else children.flatMap ruleItems

mutual
/-- From the third level down the handlers print nothing and give the parser back as they
found it. -/
theorem runHandlers_deep : ∀ (e : XmlElement) (parser : PolicyParser), 3 ≤ parser.level →
    runHandlers parser e.events = (parser, [])
  | .element name attributes children, parser, h => by
    have hstart : policyParserHandlerStart parser name attributes =
        ({ parser with level := parser.level + 1 }, []) := by
      simp only [policyParserHandlerStart]
      rw [if_neg (by omega), if_neg (by omega)]
    rw [runHandlers_events, hstart]
    simp only
    rw [runHandlersList_deep children _ (by dsimp only; omega)]
    simp [policyParserHandlerEnd, show parser.level ≠ 1 by omega]

theorem runHandlersList_deep : ∀ (es : List XmlElement) (parser : PolicyParser), 3 ≤ parser.level →
    runHandlers parser (eventsList es) = (parser, [])
  | [], _, _ => rfl
  | e :: es, parser, h => by
    rw [eventsList, runHandlers_append, runHandlers_deep e parser h, runHandlersList_deep es parser h]
    rfl
end

theorem runHandlers_eventsList {level : Int} {items : XmlElement → List PrintItem}
    (h : ∀ e nl, runHandlers ⟨level, nl⟩ e.events =
      (⟨level, layoutLinebreak nl (items e)⟩, layout nl (items e))) :
    ∀ (es : List XmlElement) (nl : Bool), runHandlers ⟨level, nl⟩ (eventsList es) =
      (⟨level, layoutLinebreak nl (es.flatMap items)⟩, layout nl (es.flatMap items))
  | [], _ => rfl
  | e :: es, nl => by
    rw [eventsList, runHandlers_append, h, runHandlers_eventsList h es, List.flatMap_cons,
      layout_append, layoutLinebreak_append]

theorem runHandlers_grandchild (e : XmlElement) (nl : Bool) :
    runHandlers ⟨2, nl⟩ e.events =
      (⟨2, layoutLinebreak nl (ruleItems e)⟩, layout nl (ruleItems e)) := by
  obtain ⟨name, attributes, children⟩ := e
  have hstart : policyParserHandlerStart ⟨2, nl⟩ name attributes =
      (⟨3, layoutLinebreak nl (ruleItems (.element name attributes children))⟩,
        layout nl (ruleItems (.element name attributes children))) := by
    simp only [policyParserHandlerStart, ruleItems]
    split_ifs <;> simp_all [policyParserHandlerDeny, policyParserHandlerAllow,
      policyParserHandlerRule, linebreak, layout, layoutLinebreak]
  rw [runHandlers_events, hstart]
  simp only
  rw [runHandlersList_deep children _ le_rfl]
  simp [policyParserHandlerEnd]

theorem runHandlers_child (e : XmlElement) (nl : Bool) :
    runHandlers ⟨1, nl⟩ e.events = (⟨1, layoutLinebreak nl (topItems e)⟩, layout nl (topItems e)) := by
  obtain ⟨name, attributes, children⟩ := e
  rw [runHandlers_events]
  by_cases hp : name = "policy"
  · have hstart : policyParserHandlerStart ⟨1, nl⟩ name attributes =
        (⟨2, false⟩, layout nl [.policyOpen attributes]) := by
      simp [policyParserHandlerStart, hp, policyParserHandlerPolicy, linebreak, layout]
    rw [hstart]
    simp only
    rw [runHandlers_eventsList runHandlers_grandchild children false]
    simp [policyParserHandlerEnd, hp, topItems, layout_append, layoutLinebreak_append, layout,
      layoutLinebreak]
  · have hstart : policyParserHandlerStart ⟨1, nl⟩ name attributes = (⟨2, nl⟩, []) := by
      simp [policyParserHandlerStart, hp]
    rw [hstart]
    simp only
    rw [runHandlers_eventsList runHandlers_grandchild children nl]
    simp [policyParserHandlerEnd, hp, topItems]

/-- Over the events of any document, from the zeroed parser, the handlers print the blocks
of the root's children in order and leave the level at 0. -/
theorem runHandlers_document (name : String) (attributes : List (String × String))
    (children : List XmlElement) :
    runHandlers policyParserNull (XmlElement.element name attributes children).events =
      (⟨0, layoutLinebreak false (children.flatMap topItems)⟩,
        layout false (children.flatMap topItems)) := by
  have hstart : policyParserHandlerStart policyParserNull name attributes = (⟨1, false⟩, []) := by
    simp [policyParserHandlerStart, policyParserNull]
  rw [runHandlers_events, hstart]
  simp only
  rw [runHandlers_eventsList runHandlers_child children false]
  simp [policyParserHandlerEnd]

/-- A `<policy>` with a deny rule and a user attribute, in a `<busconfig>`. -/
example : (runHandlers policyParserNull (XmlElement.element "busconfig" []
    [.element "policy" [("context", "default")] [.element "deny" [("own", "*")] []]]).events).2 =
    ["<policy", " context", "=default", ">\n", "    DENY:\n", "        own", "=*\n",
      "</policy>\n"] := by
  decide

/-! ## Reading the file -/

end DbusBroker
