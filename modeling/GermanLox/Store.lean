import GermanLox.Value

/-!
# The store

Frames of variables, each linked to the frame around it, and instances with their fields. The
store only grows: a place, once given out, stays. A variable is found by walking outward to the
nearest frame that has it, or by its distance in links.
-/

namespace GermanLox

structure Frame where
  bindings : Std.TreeMap String Value := {}
  enclosing : Option FrameId := none

structure Instance where
  ofClass : Class
  fields : Std.TreeMap String Value := {}

structure Store where
  frames : Array Frame := #[]
  instances : Array Instance := #[]

namespace Store

/-- The first frame of all. -/
def globals : FrameId := 0

/-- Adds an empty frame inside another one or on its own. -/
def newFrame (enclosing : Option FrameId) (s : Store) : FrameId × Store :=
  (s.frames.size, { s with frames := s.frames.push { enclosing } })

/-- Sets a variable in a frame, whether the frame has it or not. -/
def define (frame : FrameId) (name : String) (value : Value) (s : Store) : Store :=
  { s with
    frames := s.frames.modify frame fun f =>
      { f with bindings := f.bindings.insert name value } }

/-- The frame around a frame. -/
def enclosing? (s : Store) (frame : FrameId) : Option FrameId :=
  s.frames[frame]?.bind Frame.enclosing

/-- A variable of one frame. -/
def local? (s : Store) (frame : FrameId) (name : String) : Option Value :=
  s.frames[frame]?.bind fun f => f.bindings[name]?

/-- The frame a number of links outward. -/
def ancestor? (s : Store) (frame : FrameId) : Nat → Option FrameId
  | 0 => some frame
  | distance + 1 => (s.enclosing? frame).bind fun outer => ancestor? s outer distance

/-- A variable of the frame a number of links outward. -/
def getAt? (s : Store) (frame : FrameId) (distance : Nat) (name : String) : Option Value :=
  (s.ancestor? frame distance).bind fun f => s.local? f name

/-- Sets a variable in the frame a number of links outward, if there is one. -/
def assignAt? (s : Store) (frame : FrameId) (distance : Nat) (name : String) (value : Value) :
    Option Store :=
  (s.ancestor? frame distance).map fun f => s.define f name value

/-- The nearest frame that has a variable, among a frame and those outward of it, as many as
given. -/
def frameWithin? (s : Store) (name : String) : Nat → FrameId → Option FrameId
  | 0, _ => none
  | count + 1, frame =>
    if (s.local? frame name).isSome then some frame
    else (s.enclosing? frame).bind (s.frameWithin? name count)

/-- The nearest frame outward that has a variable. Links lead to older frames, so there are no more
frames outward than the frame's own place tells. -/
def frameOf? (s : Store) (frame : FrameId) (name : String) : Option FrameId :=
  s.frameWithin? name (frame + 1) frame

/-- The variable of the nearest frame outward that has it. -/
def get? (s : Store) (frame : FrameId) (name : String) : Option Value :=
  (s.frameOf? frame name).bind fun f => s.local? f name

/-- Sets the variable of the nearest frame outward that has it. -/
def assign? (s : Store) (frame : FrameId) (name : String) (value : Value) : Option Store :=
  (s.frameOf? frame name).map fun f => s.define f name value

/-- Adds an instance without fields. -/
def newInstance (c : Class) (s : Store) : InstanceId × Store :=
  (s.instances.size, { s with instances := s.instances.push { ofClass := c } })

/-- A field of an instance. -/
def field? (s : Store) (i : InstanceId) (name : String) : Option Value :=
  s.instances[i]?.bind fun o => o.fields[name]?

def setField (i : InstanceId) (name : String) (value : Value) (s : Store) : Store :=
  { s with
    instances := s.instances.modify i fun o =>
      { o with fields := o.fields.insert name value } }

/-- A method that an instance has from its class. -/
def method? (s : Store) (i : InstanceId) (name : String) : Option Closure :=
  s.instances[i]?.bind fun o => o.ofClass.findMethod? name

/-- The names of an instance's fields, in the order of their characters. -/
def fieldNames (s : Store) (i : InstanceId) : List String :=
  match s.instances[i]? with
  | none => []
  | some o => o.fields.keys

/-- The printed form of a value. -/
def display (s : Store) : Value → String
  | .nil => "nichts"
  | .bool true => "wahr"
  | .bool false => "falsch"
  | .number x => Number.text x
  | .string text => text
  | .closure c => "<fn " ++ c.name ++ ">"
  | .builtin _ => "<native fn>"
  | .ofClass c => c.name
  | .ofInstance i => ((s.instances[i]?.map (·.ofClass.name)).getD "") ++ " Instanz"

theorem enclosing?_define (s : Store) (f : FrameId) (name : String) (v : Value) (g : FrameId) :
    (s.define f name v).enclosing? g = s.enclosing? g := by
  unfold enclosing? define
  rw [Array.getElem?_modify]
  split
  · rename_i h
    subst h
    cases s.frames[f]? <;> rfl
  · rfl

theorem ancestor?_define (s : Store) (f : FrameId) (name : String) (v : Value) (g : FrameId)
    (distance : Nat) : (s.define f name v).ancestor? g distance = s.ancestor? g distance := by
  induction distance generalizing g with
  | zero => rfl
  | succ distance ih => simp only [ancestor?, enclosing?_define, ih]

/-- Setting a variable changes that variable and nothing else. -/
theorem local?_define (s : Store) (f : FrameId) (name : String) (v : Value) (g : FrameId)
    (n : String) (hf : f < s.frames.size) :
    (s.define f name v).local? g n = if f = g ∧ name = n then some v else s.local? g n := by
  unfold local? define
  rw [Array.getElem?_modify]
  by_cases h : f = g
  · subst h
    simp only [true_and, if_true, Array.getElem?_eq_getElem hf, Option.map_some, Option.bind_some,
      Std.TreeMap.getElem?_insert, Std.LawfulEqCmp.compare_eq_iff_eq]
  · simp [h]

/-- A variable, after one was set, is that one or was there before. -/
theorem local?_define_eq_some {s : Store} {f g : FrameId} {name n : String} {v u : Value}
    (hf : f < s.frames.size) (h : (s.define f name v).local? g n = some u) :
    (f = g ∧ name = n ∧ v = u) ∨ s.local? g n = some u := by
  rw [local?_define s f name v g n hf] at h
  split at h
  · rename_i hsame
    exact .inl ⟨hsame.1, hsame.2, Option.some.inj h⟩
  · exact .inr h

/-- Outside of the store there is nothing. -/
theorem local?_of_size_le {s : Store} {f : FrameId} (hf : s.frames.size ≤ f) (n : String) :
    s.local? f n = none := by
  simp [local?, Array.getElem?_eq_none hf]

theorem lt_size_of_local? {s : Store} {f : FrameId} {n : String} (h : (s.local? f n).isSome) :
    f < s.frames.size := by
  refine Nat.lt_of_not_le fun hle => ?_
  rw [local?_of_size_le hle] at h
  cases h

theorem enclosing?_newFrame (s : Store) (outer : Option FrameId) (g : FrameId) :
    (s.newFrame outer).2.enclosing? g =
      if g = s.frames.size then outer else s.enclosing? g := by
  unfold enclosing? newFrame
  simp only [Array.getElem?_push]
  split <;> rfl

theorem local?_newFrame (s : Store) (outer : Option FrameId) (g : FrameId) (n : String) :
    (s.newFrame outer).2.local? g n = s.local? g n := by
  unfold local? newFrame
  simp only [Array.getElem?_push]
  split
  · rename_i h
    subst h
    simp
  · rfl

end Store
end GermanLox
