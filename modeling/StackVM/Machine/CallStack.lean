/-
The call stack: the active frames, the current one first. Their number is kept at
hand, since every call and every turn of the run loop asks for it.

* `CallStack.push`, `CallStack.pop?`, `CallStack.modifyTop`;
* `CallStack.ext_frames`: a call stack is known by its frames.
-/
import StackVM.Machine.Frame

namespace StackVM

/-- The active frames and their number. -/
structure CallStack where
  /-- The frames, the current one first. -/
  frames : List Frame
  depth : Nat
  depth_eq : depth = frames.length

namespace CallStack

/-- The call stack without frames. -/
def empty : CallStack :=
  ⟨[], 0, rfl⟩

instance : Inhabited CallStack :=
  ⟨empty⟩

/-- A call stack is known by its frames. -/
theorem ext_frames {c c' : CallStack} (h : c.frames = c'.frames) : c = c' := by
  obtain ⟨fs, n, hn⟩ := c
  obtain ⟨fs', n', hn'⟩ := c'
  obtain rfl : fs = fs' := h
  rw [← hn'] at hn
  subst hn
  rfl

/-- Enters a frame. -/
def push (c : CallStack) (f : Frame) : CallStack :=
  ⟨f :: c.frames, c.depth + 1, by rw [c.depth_eq, List.length_cons]⟩

/-- The current frame, and the frames below it. -/
def pop? (c : CallStack) : Option (Frame × CallStack) :=
  match h : c.frames with
  | [] => none
  | f :: below => some (f, ⟨below, c.depth - 1, by rw [c.depth_eq, h, List.length_cons]; rfl⟩)

/-- Changes the current frame. -/
@[inline] def modifyTop (c : CallStack) (g : Frame → Frame) : CallStack :=
  match h : c.frames with
  | [] => c
  | f :: below => ⟨g f :: below, c.depth, by rw [c.depth_eq, h, List.length_cons, List.length_cons]⟩

end CallStack

end StackVM
