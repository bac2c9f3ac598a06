import ProjectAudit.Json.Reader

/-!
# Values that cannot be changed

What settings are kept as: in place of a list stands a tuple, and in place of an object a view of
its fields through which none of them can be set.  `Json.readOnly` is what a value is kept as and
`ReadOnly.written` is what was written.  Each undoes the other at every depth, so what is handed out
is what was written.

Both are come to by going down into a value, and each level of it takes a share of the stack.  So
`Json.freeze` and `ReadOnly.thaw` are given the number of levels that there is room for, and end
without a result exactly if a value is nested deeper.
-/

namespace ProjectAudit

/-- A JSON value that cannot be changed. -/
inductive ReadOnly
  | null
  | bool (b : Bool)
  | int (n : Int)
  | float (x : Binary64)
  | str (s : Text)
  | tuple (items : List ReadOnly)
  | view (fields : List (Text × ReadOnly))
  deriving Inhabited, Repr

/-- The number of levels that are frozen or thawed at once.  A level takes twice the share of the
stack that it takes to read it.  Like the depth of the reader it is that of a call from the top of
the program; there is less room the deeper the caller stands. -/
def ReadOnly.maxDepth : Nat := Json.maxDepth / 2

namespace Json

mutual

/-- How many lists and objects stand inside each other in a value. -/
def nesting : Json → Nat
  | .null | .bool _ | .int _ | .float _ | .str _ => 0
  | .arr items => nestingItems items + 1
  | .obj fields => nestingFields fields + 1

/-- The greatest nesting of the items of a list. -/
def nestingItems : List Json → Nat
  | [] => 0
  | v :: vs => max (nesting v) (nestingItems vs)

/-- The greatest nesting of the fields of an object. -/
def nestingFields : List (Text × Json) → Nat
  | [] => 0
  | (_, v) :: fields => max (nesting v) (nestingFields fields)

end

mutual

/-- The value with tuples for its lists and views for its objects. -/
def readOnly : Json → ReadOnly
  | .null => .null
  | .bool b => .bool b
  | .int n => .int n
  | .float x => .float x
  | .str s => .str s
  | .arr items => .tuple (readOnlyItems items)
  | .obj fields => .view (readOnlyFields fields)

/-- The items of a tuple. -/
def readOnlyItems : List Json → List ReadOnly
  | [] => []
  | v :: vs => readOnly v :: readOnlyItems vs

/-- The fields of a view. -/
def readOnlyFields : List (Text × Json) → List (Text × ReadOnly)
  | [] => []
  | (name, v) :: fields => (name, readOnly v) :: readOnlyFields fields

end

mutual

/-- Makes the value that is kept, with room for the given number of levels. -/
def freeze : (room : Nat) → Json → Except Limit ReadOnly
  | _, .null => .ok .null
  | _, .bool b => .ok (.bool b)
  | _, .int n => .ok (.int n)
  | _, .float x => .ok (.float x)
  | _, .str s => .ok (.str s)
  | 0, .arr _ => .error .depth
  | 0, .obj _ => .error .depth
  | room + 1, .arr items => (freezeItems room items).map .tuple
  | room + 1, .obj fields => (freezeFields room fields).map .view

/-- Freezes the items of a list. -/
def freezeItems : (room : Nat) → List Json → Except Limit (List ReadOnly)
  | _, [] => .ok []
  | room, v :: vs => do
    let first ← freeze room v
    return first :: (← freezeItems room vs)

/-- Freezes the fields of an object. -/
def freezeFields : (room : Nat) → List (Text × Json) → Except Limit (List (Text × ReadOnly))
  | _, [] => .ok []
  | room, (name, v) :: fields => do
    let first ← freeze room v
    return (name, first) :: (← freezeFields room fields)

end

end Json

namespace ReadOnly

mutual

/-- The value with lists for its tuples and objects for its views. -/
def written : ReadOnly → Json
  | .null => .null
  | .bool b => .bool b
  | .int n => .int n
  | .float x => .float x
  | .str s => .str s
  | .tuple items => .arr (writtenItems items)
  | .view fields => .obj (writtenFields fields)

/-- The items of a list. -/
def writtenItems : List ReadOnly → List Json
  | [] => []
  | v :: vs => written v :: writtenItems vs

/-- The fields of an object. -/
def writtenFields : List (Text × ReadOnly) → List (Text × Json)
  | [] => []
  | (name, v) :: fields => (name, written v) :: writtenFields fields

end

mutual

/-- Makes the value that was written, with room for the given number of levels. -/
def thaw : (room : Nat) → ReadOnly → Except Json.Limit Json
  | _, .null => .ok .null
  | _, .bool b => .ok (.bool b)
  | _, .int n => .ok (.int n)
  | _, .float x => .ok (.float x)
  | _, .str s => .ok (.str s)
  | 0, .tuple _ => .error .depth
  | 0, .view _ => .error .depth
  | room + 1, .tuple items => (thawItems room items).map .arr
  | room + 1, .view fields => (thawFields room fields).map .obj

/-- Thaws the items of a tuple. -/
def thawItems : (room : Nat) → List ReadOnly → Except Json.Limit (List Json)
  | _, [] => .ok []
  | room, v :: vs => do
    let first ← thaw room v
    return first :: (← thawItems room vs)

/-- Thaws the fields of a view. -/
def thawFields : (room : Nat) → List (Text × ReadOnly) → Except Json.Limit (List (Text × Json))
  | _, [] => .ok []
  | room, (name, v) :: fields => do
    let first ← thaw room v
    return (name, first) :: (← thawFields room fields)

end

/-! ## Each undoes the other -/

open Json

mutual

/-- **A value is what it was before it was kept**, once it is written out. -/
@[simp] theorem written_readOnly (v : Json) : written (readOnly v) = v :=
  match v with
  | .null | .bool _ | .int _ | .float _ | .str _ => rfl
  | .arr items => congrArg Json.arr (writtenItems_readOnlyItems items)
  | .obj fields => congrArg Json.obj (writtenFields_readOnlyFields fields)

@[simp] theorem writtenItems_readOnlyItems (items : List Json) :
    writtenItems (readOnlyItems items) = items :=
  match items with
  | [] => rfl
  | v :: vs => by
    rw [readOnlyItems, writtenItems, written_readOnly v, writtenItems_readOnlyItems vs]

@[simp] theorem writtenFields_readOnlyFields (fields : List (Text × Json)) :
    writtenFields (readOnlyFields fields) = fields :=
  match fields with
  | [] => rfl
  | (_, v) :: rest => by
    rw [readOnlyFields, writtenFields, written_readOnly v, writtenFields_readOnlyFields rest]

end

mutual

@[simp] theorem readOnly_written (v : ReadOnly) : readOnly (written v) = v :=
  match v with
  | .null | .bool _ | .int _ | .float _ | .str _ => rfl
  | .tuple items => congrArg ReadOnly.tuple (readOnlyItems_writtenItems items)
  | .view fields => congrArg ReadOnly.view (readOnlyFields_writtenFields fields)

@[simp] theorem readOnlyItems_writtenItems (items : List ReadOnly) :
    readOnlyItems (writtenItems items) = items :=
  match items with
  | [] => rfl
  | v :: vs => by
    rw [writtenItems, readOnlyItems, readOnly_written v, readOnlyItems_writtenItems vs]

@[simp] theorem readOnlyFields_writtenFields (fields : List (Text × ReadOnly)) :
    readOnlyFields (writtenFields fields) = fields :=
  match fields with
  | [] => rfl
  | (_, v) :: rest => by
    rw [writtenFields, readOnlyFields, readOnly_written v, readOnlyFields_writtenFields rest]

end

end ReadOnly

end ProjectAudit
