import QueryShapes.Document.Token

namespace QueryShapes

/-- A JSON value as far as it could be read. A container that did not reach its
end carries the fault, and so does every container around it. -/
inductive Value
  | null
  | flag (b : Bool)
  | text (l : Literal)
  | numeral (n : Numeral)
  | list (items : List Value) (fault : Option Fault)
  | object (members : List (Literal × Value)) (fault : Option Fault)
  | broken (f : Fault)

/-- A place inside an open container that waits for a value. What the container
already holds is listed backwards. -/
inductive Frame
  | item (before : List Value)
  | member (before : List (Literal × Value)) (key : Literal)

/-- What a reader may find next. The frames lead from the innermost place to
the outermost one. -/
inductive Place
  | value (frames : List Frame)
  | firstItem (frames : List Frame)
  | afterItem (items : List Value) (frames : List Frame)
  | firstKey (frames : List Frame)
  | nextKey (members : List (Literal × Value)) (frames : List Frame)
  | afterKey (members : List (Literal × Value)) (key : Literal) (frames : List Frame)
  | afterMember (members : List (Literal × Value)) (frames : List Frame)
  | finished (root : Value)

namespace Value

/-- The whole document, given its innermost value and the fault that ends it. -/
def breakOff (f : Fault) : Value → List Frame → Value
  | v, [] => v
  | v, .item before :: frames => breakOff f (.list (v :: before).reverse (some f)) frames
  | v, .member before key :: frames => breakOff f (.object ((key, v) :: before).reverse (some f)) frames

/-- The fault that ends a value when nobody looks at what it says. -/
def skipFault : Value → Option Fault
  | null | flag _ => none
  | text l => l.fault
  | numeral n => n.skipFault
  | list _ f => f
  | object _ f => f
  | broken f => some f

end Value

namespace Place

/-- Where a reader stands after a complete value. -/
def after (v : Value) : List Frame → Place
  | [] => finished v
  | .item before :: frames => afterItem (v :: before) frames
  | .member before key :: frames => afterMember ((key, v) :: before) frames

/-- The document as read so far, if a fault ends it here. -/
def stop (f : Fault) : Place → Value
  | value frames => Value.breakOff f (.broken f) frames
  | firstItem frames => Value.breakOff f (.list [] (some f)) frames
  | afterItem items frames => Value.breakOff f (.list items.reverse (some f)) frames
  | firstKey frames => Value.breakOff f (.object [] (some f)) frames
  | nextKey members frames => Value.breakOff f (.object members.reverse (some f)) frames
  | afterKey members k frames => Value.breakOff f (.object ((k, .broken f) :: members).reverse (some f)) frames
  | afterMember members frames => Value.breakOff f (.object members.reverse (some f)) frames
  | finished root => root

/-- A value that is complete in itself, unless its own fault ends the document. -/
def put (v : Value) (frames : List Frame) : Except Value Place :=
  match v.skipFault with
  | none => .ok (after v frames)
  | some f => .error (Value.breakOff f v frames)

def readValue (frames : List Frame) : Token → Except Value Place
  | .openList => .ok (firstItem frames)
  | .openObject => .ok (firstKey frames)
  | .null => put .null frames
  | .flag b => put (.flag b) frames
  | .literal l => put (.text l) frames
  | .numeral n => put (.numeral n) frames
  | .bad f => put (.broken f) frames
  | .closeList | .closeObject | .comma | .colon => put (.broken .malformed) frames

def readKey (members : List (Literal × Value)) (frames : List Frame) : Token → Except Value Place
  | .literal k =>
    match k.fault with
    | none => .ok (afterKey members k frames)
    | some f => .error ((afterKey members k frames).stop f)
  | _ => .error ((nextKey members frames).stop .malformed)

/-- Reads one token. The error is the document as far as it could be read. -/
def step : Place → Token → Except Value Place
  | value frames, token => readValue frames token
  | firstItem frames, .closeList => .ok (after (.list [] none) frames)
  | firstItem frames, token => readValue (.item [] :: frames) token
  | afterItem items frames, .comma => .ok (value (.item items :: frames))
  | afterItem items frames, .closeList => .ok (after (.list items.reverse none) frames)
  | firstKey frames, .closeObject => .ok (after (.object [] none) frames)
  | firstKey frames, token => readKey [] frames token
  | nextKey members frames, token => readKey members frames token
  | afterKey members k frames, .colon => .ok (value (.member members k :: frames))
  | afterMember members frames, .comma => .ok (nextKey members frames)
  | afterMember members frames, .closeObject => .ok (after (.object members.reverse none) frames)
  | place, _ => .error (place.stop .malformed)

end Place

/-- The first value of a text, and whether more than blanks follows it. -/
structure Document where
  root : Value
  hasTrailing : Bool

namespace Document

def ofTokens : Place → List Token → Document
  | .finished root, rest => ⟨root, !rest.isEmpty⟩
  | place, [] => ⟨place.stop .truncated, false⟩
  | place, token :: rest =>
    match place.step token with
    | .ok place => ofTokens place rest
    | .error root => ⟨root, false⟩

def ofText (s : String) : Document :=
  ofTokens (.value []) (tokens s)

/-- Decodes the root. Trailing text is looked at only after that. -/
def decode {α : Type} (d : Document) (read : Value → Except Fault α) : Except Fault α :=
  match read d.root with
  | .error f => .error f
  | .ok a => if d.hasTrailing then .error .malformed else .ok a

end Document
end QueryShapes
