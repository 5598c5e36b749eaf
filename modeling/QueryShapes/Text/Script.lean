import QueryShapes.Text.Line

namespace QueryShapes

/-- Lines under construction and the depth at which the next one is written. -/
structure Buffer where
  lines : List Line := []
  depth : Nat := 0
deriving DecidableEq, Repr

namespace Buffer

def line (b : Buffer) (content : String) : Buffer :=
  { b with lines := b.lines ++ [.text b.depth content] }

def blank (b : Buffer) : Buffer :=
  { b with lines := b.lines ++ [.blank] }

def enter (b : Buffer) : Buffer :=
  { b with depth := b.depth + 1 }

def leave (b : Buffer) : Buffer :=
  { b with depth := b.depth - 1 }

def isEmpty (b : Buffer) : Bool :=
  b.lines.isEmpty

def render (b : Buffer) : String :=
  renderLines b.lines

end Buffer

/-- A program that writes into a buffer. A block writes its body one level
deeper and leaves that level even when the body fails; a failure that is not
caught there ends the enclosing program too. -/
inductive Script
  | done
  | line (content : String) (next : Script)
  | blank (next : Script)
  | render (next : Script)
  | fail (message : String)
  | block (caught : Bool) (body next : Script)
deriving Repr

/-- What a step of a script can observe. -/
inductive Event
  | wrote (depth : Nat) (isEmpty : Bool)
  | rendered (text : String)
  | left (inner : List Event) (failure : Option String) (depth : Nat)
deriving Repr

structure Outcome where
  events : List Event
  failure : Option String
  buffer : Buffer
deriving Repr

namespace Script

def after (event : Event) (o : Outcome) : Outcome :=
  { o with events := event :: o.events }

def run : Script → Buffer → Outcome
  | done, b => ⟨[], none, b⟩
  | line content next, b =>
    let b := b.line content
    after (.wrote b.depth b.isEmpty) (run next b)
  | blank next, b =>
    let b := b.blank
    after (.wrote b.depth b.isEmpty) (run next b)
  | render next, b => after (.rendered b.render) (run next b)
  | fail message, b => ⟨[], some message, b⟩
  | block caught body next, b =>
    let inner := run body b.enter
    let b := inner.buffer.leave
    let event := Event.left inner.events inner.failure b.depth
    if inner.failure.isNone || caught then after event (run next b)
    else ⟨[event], inner.failure, b⟩

end Script
end QueryShapes
