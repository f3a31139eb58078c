import Silifuzz.Library.Loops
import Silifuzz.Util.TextProtoPrinter

/-!
# Messages of TextProtoPrinter

The outermost printer with all messages that are made of it, and the calls of fields,
messages and destructors in any order. Each object that is alive holds the text of its tree
of fields, so parsing the outermost text gives the tree back.
-/

namespace Silifuzz

open TextFormat Itoa Loops

namespace TextProtoPrinter

/-- A field of one of the kinds that are printed. -/
inductive Leaf where
  | string (fieldName : String) (value : List Byte)
  | bytes (fieldName : String) (value : List Byte)
  | enum (fieldName value : String)
  | int (fieldName : String) (value : Int)
  | hex (fieldName : String) (value : Nat)

def Leaf.print (p : TextProtoPrinter) : Leaf → Option TextProtoPrinter
  | string fieldName value => p.string fieldName value
  | bytes fieldName value => p.bytes fieldName value
  | enum fieldName value => p.enum fieldName value
  | int fieldName value => p.int fieldName value
  | hex fieldName value => p.hex fieldName value

/-- A call, on the outermost printer or on the one that the `target`-th object has. -/
inductive Call where
  | field (target : Nat) (leaf : Leaf)
  | message (target : Nat) (fieldName : String)
  | destroy (target : Nat)

/-- A printer: the outermost one, or the one of a message with its parent. -/
structure Object where
  parent : Option Nat
  printer : TextProtoPrinter
  alive : Bool

/-- The printer that there is first. -/
def outermost : Object := ⟨none, new, true⟩

/-- An object that a call may use. -/
def living (objects : List Object) (i : Nat) : Option Object :=
  (objects[i]?).filter (·.alive)

/-- A call; none is a `LOG_FATAL`, or the use of an object that is no more. -/
def call (objects : List Object) : Call → Option (List Object)
  | .field target leaf => do
    let o ← living objects target
    let printer ← leaf.print o.printer
    return objects.set target { o with printer := printer }
  | .message target fieldName => do
    let _ ← living objects target
    let printer ← message fieldName
    return objects ++ [⟨some target, printer, true⟩]
  | .destroy target => do
    let o ← living objects target
    let parent ← o.parent
    let p ← living objects parent
    let printer ← o.printer.commit p.printer
    return (objects.set parent { p with printer := printer }).set target { o with alive := false }

def calls (objects : List Object) (cs : List Call) : Option (List Object) := cs.foldlM call objects

/-! ## The trees that are built -/

inductive Node where
  | leaf (l : Leaf)
  | message (fieldName : String) (nodes : List Node)

/-- What has been put into an object, and for a message where it goes. -/
structure Tree where
  role : Option (Nat × String)
  nodes : List Node
  alive : Bool

def outermostTree : Tree := ⟨none, [], true⟩

def livingTree (trees : List Tree) (i : Nat) : Option Tree := (trees[i]?).filter (·.alive)

/-- What a call means: a message joins the nodes of its parent when it is destroyed. -/
def build (trees : List Tree) : Call → Option (List Tree)
  | .field target leaf => do
    let t ← livingTree trees target
    return trees.set target { t with nodes := t.nodes ++ [.leaf leaf] }
  | .message target fieldName => do
    let _ ← livingTree trees target
    return trees ++ [⟨some (target, fieldName), [], true⟩]
  | .destroy target => do
    let t ← livingTree trees target
    let role ← t.role
    let p ← livingTree trees role.1
    return (trees.set role.1 { p with nodes := p.nodes ++ [.message role.2 t.nodes] }).set target
      { t with alive := false }

def builds (trees : List Tree) (cs : List Call) : Option (List Tree) := cs.foldlM build trees

/-- The names are words of the text format, and so are the values of enums. -/
def Leaf.Named : Leaf → Prop
  | string fieldName _ | bytes fieldName _ | int fieldName _ | hex fieldName _ =>
    IsWord fieldName.toList
  | enum fieldName value => IsWord fieldName.toList ∧ IsWord value.toList

def Call.Named : Call → Prop
  | .field _ leaf => leaf.Named
  | .message _ fieldName => IsWord fieldName.toList
  | .destroy _ => True

instance : (leaf : Leaf) → Decidable leaf.Named
  | .string fieldName _ | .bytes fieldName _ | .int fieldName _ | .hex fieldName _ =>
    inferInstanceAs (Decidable (IsWord fieldName.toList))
  | .enum fieldName value =>
    inferInstanceAs (Decidable (IsWord fieldName.toList ∧ IsWord value.toList))

instance : (c : Call) → Decidable c.Named
  | .field _ leaf => inferInstanceAs (Decidable leaf.Named)
  | .message _ fieldName => inferInstanceAs (Decidable (IsWord fieldName.toList))
  | .destroy _ => inferInstanceAs (Decidable True)

mutual

/-- A parsed field is the node: its name, and its value as a field of the node's kind reads it. -/
def Agrees : TextFormat.Field → Node → Prop
  | .string name value, .leaf (.string fieldName bytes)
  | .string name value, .leaf (.bytes fieldName bytes) => name = fieldName.toList ∧ value = bytes
  | .scalar name word, .leaf (.enum fieldName value) =>
    name = fieldName.toList ∧ word = value.toList
  | .scalar name word, .leaf (.int fieldName value) =>
    name = fieldName.toList ∧ signed word = some value
  | .scalar name word, .leaf (.hex fieldName value) =>
    name = fieldName.toList ∧ unsigned word = some value
  | .message name fields, .message fieldName nodes =>
    name = fieldName.toList ∧ AgreeAll fields nodes
  | _, _ => False

def AgreeAll : List TextFormat.Field → List Node → Prop
  | [], [] => True
  | field :: fields, node :: nodes => Agrees field node ∧ AgreeAll fields nodes
  | _, _ => False

end

/-! ## What an object holds -/

def Leaf.event : Leaf → Event
  | string fieldName value | bytes fieldName value => .string fieldName.toList value
  | enum fieldName value => .scalar fieldName.toList value.toList
  | int fieldName value => .scalar fieldName.toList (intStr value)
  | hex fieldName value => .scalar fieldName.toList (Itoa.hexStr value)

/-- A bytes field that fits. -/
def Leaf.Fits : Leaf → Prop
  | string _ value | bytes _ value => BytesFit value
  | enum _ _ | int _ _ | hex _ _ => True

theorem appends_leaf (leaf : Leaf) : Appends (leaf.print ·) leaf.Fits (printed [leaf.event]) := by
  cases leaf with
  | string fieldName value => exact appends_bytes fieldName value
  | bytes fieldName value => exact appends_bytes fieldName value
  | enum fieldName value => exact appends_word fieldName value.toList
  | int fieldName value => exact appends_word fieldName (intStr value)
  | hex fieldName value => exact appends_word fieldName (Itoa.hexStr value)

theorem Leaf.Named.plain {leaf : Leaf} (named : leaf.Named) : leaf.event.Plain := by
  cases leaf with
  | string fieldName value | bytes fieldName value => exact named
  | enum fieldName value => exact named
  | int fieldName value => exact ⟨named, isWord_intStr value⟩
  | hex fieldName value => exact ⟨named, isWord_hexStr value⟩

theorem exists_leaf_field (leaf : Leaf) :
    ∃ field, Denotes [leaf.event] [field] ∧ Agrees field (.leaf leaf) := by
  cases leaf with
  | string fieldName value | bytes fieldName value =>
    exact ⟨_, .string _ _ .nil, rfl, rfl⟩
  | enum fieldName value => exact ⟨_, .scalar _ _ .nil, rfl, rfl⟩
  | int fieldName value => exact ⟨_, .scalar _ _ .nil, rfl, signed_intStr value⟩
  | hex fieldName value => exact ⟨_, .scalar _ _ .nil, rfl, unsigned_hexStr value⟩

/-- Events that are read as fields, and these as the nodes. -/
def Spells (es : List Event) (nodes : List Node) : Prop :=
  (∀ e ∈ es, e.Plain) ∧ ∃ fields, Denotes es fields ∧ AgreeAll fields nodes

theorem AgreeAll.append {fields fields' : List TextFormat.Field} {nodes nodes' : List Node}
    (h : AgreeAll fields nodes) (h' : AgreeAll fields' nodes') :
    AgreeAll (fields ++ fields') (nodes ++ nodes') := by
  induction fields generalizing nodes with
  | nil =>
    cases nodes with
    | nil => exact h'
    | cons node nodes => simp only [AgreeAll] at h
  | cons field fields ih =>
    cases nodes with
    | nil => simp only [AgreeAll] at h
    | cons node nodes =>
      simp only [List.cons_append, AgreeAll] at h ⊢
      exact ⟨h.1, ih h.2⟩

theorem Spells.append {es es' : List Event} {nodes nodes' : List Node} (h : Spells es nodes)
    (h' : Spells es' nodes') : Spells (es ++ es') (nodes ++ nodes') := by
  obtain ⟨plain, fields, denotes, agree⟩ := h
  obtain ⟨plain', fields', denotes', agree'⟩ := h'
  refine ⟨fun e member => ?_, fields ++ fields', denotes.append denotes', agree.append agree'⟩
  rcases List.mem_append.mp member with first | second
  · exact plain e first
  · exact plain' e second

theorem spells_leaf {leaf : Leaf} (named : leaf.Named) : Spells [leaf.event] [.leaf leaf] := by
  obtain ⟨field, denotes, agrees⟩ := exists_leaf_field leaf
  refine ⟨fun e member => ?_, [field], denotes, ?_⟩
  · rw [List.mem_singleton.mp member]
    exact named.plain
  · simp only [AgreeAll]
    exact ⟨agrees, trivial⟩

theorem spells_message {es : List Event} {nodes : List Node} {fieldName : String}
    (named : IsWord fieldName.toList) (h : Spells es nodes) :
    Spells (.openMessage fieldName.toList :: (es ++ [.closeMessage]))
      [.message fieldName nodes] := by
  obtain ⟨plain, fields, denotes, agree⟩ := h
  refine ⟨fun e member => ?_, [.message fieldName.toList fields],
    .message _ denotes .nil, ?_⟩
  · simp only [List.mem_cons, List.mem_append, List.not_mem_nil, or_false] at member
    rcases member with rfl | inside | rfl
    · exact named
    · exact plain e inside
    · trivial
  · simp only [AgreeAll, Agrees]
    exact ⟨⟨trivial, agree⟩, trivial⟩

/-- What the text of an object starts with. -/
def Tree.opening (t : Tree) : List Event :=
  match t.role with
  | none => []
  | some role => [.openMessage role.2.toList]

/-- The object has its tree printed in its buffer. -/
structure Holds (o : Object) (t : Tree) : Prop where
  parent : o.parent = t.role.map Prod.fst
  alive : o.alive = t.alive
  named : ∀ role ∈ t.role, IsWord role.2.toList
  text : ∃ es, o.printer.buf = printed (t.opening ++ es) ∧ Spells es t.nodes

theorem outermost_holds : Holds outermost outermostTree where
  parent := rfl
  alive := rfl
  named := by simp [outermostTree]
  text := ⟨[], rfl, by simp, [], .nil, trivial⟩

theorem living_holds {objects : List Object} {trees : List Tree} {i : Nat} {o : Object}
    (h : List.Forall₂ Holds objects trees) (found : living objects i = some o) :
    ∃ t, livingTree trees i = some t ∧ Holds o t := by
  obtain ⟨at_i, alive⟩ := Option.filter_eq_some_iff.mp found
  obtain ⟨t, tree, holds⟩ := forall₂_getElem? h.flip at_i
  exact ⟨t, Option.filter_eq_some_iff.mpr ⟨tree, holds.alive ▸ alive⟩, holds⟩

/-- A field is printed behind what there is. -/
theorem Holds.field {o : Object} {t : Tree} {leaf : Leaf} {p : TextProtoPrinter} (h : Holds o t)
    (named : leaf.Named) (run : leaf.print o.printer = some p) :
    Holds { o with printer := p } { t with nodes := t.nodes ++ [.leaf leaf] } := by
  obtain ⟨es, text, spells⟩ := h.text
  obtain ⟨-, appended⟩ := (appends_leaf leaf o.printer p).mp run
  refine ⟨h.parent, h.alive, h.named, es ++ [leaf.event], ?_, spells.append (spells_leaf named)⟩
  rw [appended, text, ← printed_append, List.append_assoc]
  rfl

theorem Holds.commit {o q : Object} {t u : Tree} {role : Nat × String} {p : TextProtoPrinter}
    (h : Holds o t) (hq : Holds q u) (isMessage : t.role = some role)
    (run : o.printer.commit q.printer = some p) :
    Holds { q with printer := p } { u with nodes := u.nodes ++ [.message role.2 t.nodes] } := by
  obtain ⟨es, text, spells⟩ := h.text
  obtain ⟨es', text', spells'⟩ := hq.text
  have named := h.named role isMessage
  obtain ⟨-, appended⟩ := (appends_commit o.printer q.printer p).mp run
  refine ⟨hq.parent, hq.alive, hq.named, es' ++ .openMessage role.2.toList :: (es ++ [.closeMessage]),
    ?_, spells'.append (spells_message named spells)⟩
  have opening : t.opening = [.openMessage role.2.toList] := by
    rw [Tree.opening, isMessage]
  rw [appended, text', text, opening, ← printed_append, ← printed_append]
  simp only [List.append_assoc, List.cons_append]
  rfl

/-- **A call does to the objects what it means for their trees.** -/
theorem call_holds {objects objects' : List Object} {trees : List Tree} {c : Call}
    (h : List.Forall₂ Holds objects trees) (named : c.Named) (run : call objects c = some objects') :
    ∃ trees', build trees c = some trees' ∧ List.Forall₂ Holds objects' trees' := by
  cases c with
  | field target leaf =>
    obtain ⟨o, found, run⟩ := Option.bind_eq_some_iff.mp run
    obtain ⟨p, print, run⟩ := Option.bind_eq_some_iff.mp run
    cases run
    obtain ⟨t, tree, holds⟩ := living_holds h found
    exact ⟨_, by rw [build, tree]; rfl, forall₂_set h target (holds.field named print)⟩
  | message target fieldName =>
    obtain ⟨o, found, run⟩ := Option.bind_eq_some_iff.mp run
    obtain ⟨p, opened, run⟩ := Option.bind_eq_some_iff.mp run
    cases run
    obtain ⟨t, tree, -⟩ := living_holds h found
    refine ⟨_, by rw [build, tree]; rfl, List.rel_append h (.cons ?_ .nil)⟩
    refine ⟨rfl, rfl, fun role isRole => ?_, [], ?_, by simp, [], .nil, trivial⟩
    · cases isRole
      exact named
    · rw [message_eq_some.mp opened]
      rfl
  | destroy target =>
    obtain ⟨o, found, run⟩ := Option.bind_eq_some_iff.mp run
    obtain ⟨parent, isMessage, run⟩ := Option.bind_eq_some_iff.mp run
    obtain ⟨q, around, run⟩ := Option.bind_eq_some_iff.mp run
    obtain ⟨p, committed, run⟩ := Option.bind_eq_some_iff.mp run
    cases run
    obtain ⟨t, tree, holds⟩ := living_holds h found
    rw [holds.parent] at isMessage
    obtain ⟨role, isRole, rfl⟩ := Option.map_eq_some_iff.mp isMessage
    obtain ⟨u, tree', holds'⟩ := living_holds h around
    have built : build trees (.destroy target) = some ((trees.set role.1
        { u with nodes := u.nodes ++ [.message role.2 t.nodes] }).set target
          { t with alive := false }) := by
      simp only [build, tree, isRole, tree', Option.bind_eq_bind, Option.bind_some]
      rfl
    refine ⟨_, built,
      forall₂_set (forall₂_set h role.1 (holds.commit holds' isRole committed)) target ?_⟩
    exact ⟨holds.parent, rfl, holds.named, holds.text⟩

theorem calls_hold {objects objects' : List Object} {trees : List Tree} {cs : List Call}
    (h : List.Forall₂ Holds objects trees) (named : ∀ c ∈ cs, c.Named)
    (run : calls objects cs = some objects') :
    ∃ trees', builds trees cs = some trees' ∧ List.Forall₂ Holds objects' trees' := by
  induction cs generalizing objects trees with
  | nil =>
    cases run
    exact ⟨trees, rfl, h⟩
  | cons c cs ih =>
    obtain ⟨middle, first, rest⟩ := Option.bind_eq_some_iff.mp run
    obtain ⟨between, built, h⟩ := call_holds h (named c List.mem_cons_self) first
    obtain ⟨trees', builtRest, h⟩ := ih h (fun c member => named c (List.mem_cons_of_mem _ member)) rest
    exact ⟨trees', Option.bind_eq_some_iff.mpr ⟨between, built, builtRest⟩, h⟩

theorem livingTree_role {trees : List Tree} {i : Nat} {t : Tree} (h : livingTree trees i = some t) :
    (trees.map Tree.role)[i]? = some t.role := by
  rw [List.getElem?_map, (Option.filter_eq_some_iff.mp h).1]
  rfl

theorem set_self {α : Type} {l : List α} {i : Nat} {a : α} (h : l[i]? = some a) : l.set i a = l := by
  obtain ⟨inside, rfl⟩ := List.getElem?_eq_some_iff.mp h
  exact List.set_getElem_self inside

/-- A call may add an object, and the others keep their roles. -/
theorem build_roles {trees trees' : List Tree} {c : Call} (run : build trees c = some trees') :
    ∃ new, trees'.map Tree.role = trees.map Tree.role ++ new := by
  cases c with
  | field target leaf =>
    obtain ⟨t, tree, run⟩ := Option.bind_eq_some_iff.mp run
    cases run
    refine ⟨[], ?_⟩
    rw [List.append_nil, List.map_set, set_self (livingTree_role tree)]
  | message target fieldName =>
    obtain ⟨t, tree, run⟩ := Option.bind_eq_some_iff.mp run
    cases run
    exact ⟨_, List.map_append⟩
  | destroy target =>
    obtain ⟨t, tree, run⟩ := Option.bind_eq_some_iff.mp run
    obtain ⟨role, isRole, run⟩ := Option.bind_eq_some_iff.mp run
    obtain ⟨u, around, run⟩ := Option.bind_eq_some_iff.mp run
    cases run
    refine ⟨[], ?_⟩
    rw [List.append_nil, List.map_set, List.map_set, set_self (livingTree_role around),
      set_self (livingTree_role tree)]

theorem builds_roles {trees trees' : List Tree} {cs : List Call}
    (run : builds trees cs = some trees') :
    ∃ new, trees'.map Tree.role = trees.map Tree.role ++ new := by
  induction cs generalizing trees with
  | nil =>
    cases run
    exact ⟨[], (List.append_nil _).symm⟩
  | cons c cs ih =>
    obtain ⟨middle, first, rest⟩ := Option.bind_eq_some_iff.mp run
    obtain ⟨new, roles⟩ := build_roles first
    obtain ⟨more, roles'⟩ := ih rest
    exact ⟨new ++ more, by rw [roles', roles, List.append_assoc]⟩

/-- **Parsing the text of the outermost printer gives back the tree that was built**, whatever
calls there were, in whatever order. -/
theorem parse_calls {cs : List Call} {objects : List Object} (named : ∀ c ∈ cs, c.Named)
    (run : calls [outermost] cs = some objects) :
    ∃ trees o t, builds [outermostTree] cs = some trees ∧ objects[0]? = some o ∧ trees[0]? = some t ∧
      ∃ fields, parse o.printer.buf = some fields ∧ AgreeAll fields t.nodes := by
  obtain ⟨trees, built, h⟩ := calls_hold (.cons outermost_holds .nil) named run
  obtain ⟨new, roles⟩ := builds_roles built
  have first : (trees.map Tree.role)[0]? = some none := by
    rw [roles]
    rfl
  rw [List.getElem?_map] at first
  obtain ⟨t, tree, role⟩ := Option.map_eq_some_iff.mp first
  obtain ⟨o, object, holds⟩ := forall₂_getElem? h tree
  obtain ⟨es, text, plain, fields, denotes, agree⟩ := holds.text
  have opening : t.opening = [] := by rw [Tree.opening, role]
  rw [opening, List.nil_append] at text
  refine ⟨trees, o, t, built, object, tree, fields, ?_, agree⟩
  rw [text]
  exact parse_print quotes_escape plain denotes

/-- A message whose fields come before and after one of the outermost printer. -/
theorem parse_calls_nested : ∃ (objects : List Object) (o : Object) (t : Tree),
    calls [outermost] [.message 0 "m", .field 1 (.bytes "b" [0, 0x27, 0x31]),
      .field 0 (.string "s" [0xff, 0x30]), .field 1 (.enum "e" "X"), .destroy 1] = some objects ∧
    objects[0]? = some o ∧ t.nodes = [.leaf (.string "s" [0xff, 0x30]),
      .message "m" [.leaf (.bytes "b" [0, 0x27, 0x31]), .leaf (.enum "e" "X")]] ∧
    ∃ fields, parse o.printer.buf = some fields ∧ AgreeAll fields t.nodes := by
  have runs : (calls [outermost] [.message 0 "m", .field 1 (.bytes "b" [0, 0x27, 0x31]),
      .field 0 (.string "s" [0xff, 0x30]), .field 1 (.enum "e" "X"), .destroy 1]).isSome := by
    decide +kernel
  obtain ⟨objects, run⟩ := Option.isSome_iff_exists.mp runs
  obtain ⟨trees, o, t, built, object, tree, parsed⟩ := parse_calls (by
    decide) run
  refine ⟨objects, o, t, run, object, ?_, parsed⟩
  cases built
  cases tree
  rfl

end TextProtoPrinter

end Silifuzz
