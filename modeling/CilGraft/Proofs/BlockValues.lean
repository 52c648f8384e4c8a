/-
What the grafted blocks compute.

- `find?_default`: each member that a graft calls is answered by its own hook, whatever the types are called.
- `ratioBlock_runs`, `scaleBlock_runs`: from any machine that has the slots, a block is run to its end, sets its slot
  and leaves everything else alone.
- `resolved_blocks_run`: the same for the members that a module imports, as a run of the machine.
-/
import CilGraft.Machine.Builtin
import CilGraft.Proofs.GraftCode
import CilGraft.Proofs.MachineRuns

namespace CilGraft

open Machine (Runs Steps Surroundings)

/-! ## Hooks -/

namespace MemberKey

/-- the hook that answers a member -/
def hook (c : Config) (width height : Int32) : MemberKey → Hook
  | getActive => { name := "RenderTexture.get_active", target := some (c.renderTexture, "get_active")
                   respond := fun _ => .ok (.object Hooks.activeTarget) }
  | setActive => { name := "RenderTexture.set_active", target := some (c.renderTexture, "set_active") }
  | getWidth => { name := "RenderTexture.get_width", target := some (c.renderTexture, "get_width")
                  respond := Hooks.dimension width }
  | getHeight => { name := "RenderTexture.get_height", target := some (c.renderTexture, "get_height")
                   respond := Hooks.dimension height }
  | vectorCtor => { name := "Vector3..ctor", target := some (c.vector, constructorName)
                    respond := Hooks.makeVector c.vector }
  | vectorScale => { name := "Vector3.Scale", target := some (c.vector, "Scale")
                     respond := Hooks.scaleVector c.vector }
  | mathMin => { name := "System.Math.Min", target := some (Hooks.mathType, "Min")
                 respond := Hooks.combine Hooks.minimum }

/-- **No hook stands in front of another one.** The names of the methods tell them apart, so the types may be any. -/
theorem find?_default (c : Config) (width height : Int32) (more : Hooks) (key : MemberKey) :
    (Hooks.default c.renderTexture c.vector width height ++ more).find? (key.member c).declaring (key.member c).name =
      some (key.hook c width height) := by
  cases key <;>
    simp [Hooks.find?, Hooks.default, Hooks.math, Hooks.renderTexture, Hooks.vector3, Hook.answers, member,
      hook, constructorName, Hooks.mathType]

end MemberKey

namespace Graft

/-- the lesser dimension of the render target, divided by the reference size -/
def ratio (c : Config) (width height : Int32) : Binary.Single :=
  (Binary.Single.ofInt32 (min width height)).div c.referenceSize

/-- one and a half for 2048 by 1536 pixels -/
example : ratio {} 2048 1536 = ⟨0x3FC00000⟩ := by decide

/-- the ratio as a vector: drawing is in a plane, and the third component stays as it is -/
def ratioVector (c : Config) (width height : Int32) : Value :=
  .vector c.vector (ratio c width height) (ratio c width height) ⟨0x3F800000⟩

/-! ## Blocks -/

theorem combine_minimum (member : Member) (a b : Int32) :
    Hooks.combine Hooks.minimum ⟨member, none, [.int32 a, .int32 b]⟩ = .ok (.int32 (min a b)) := by
  have hmin : min a b = if b < a then b else a := by
    show (if a ≤ b then a else b) = _
    by_cases hle : a ≤ b
    · rw [if_pos hle, if_neg (Int32.not_lt.2 hle)]
    · rw [if_neg hle, if_pos (Int32.not_le.1 hle)]
  rw [hmin]
  rfl

section

variable {members : ImportedMembers} {c : Config} {resolve : Resolver} (h : members.Linked c resolve)
  (width height : Int32) (more : Hooks) {m : Machine}
include h

/-- **The ratio block** sets its slot to the ratio. -/
theorem ratioBlock_runs (hm : m.returned = none) {slot : Local} (hslot : slot.index.toNat < m.locals.size) :
    ∃ block, members.ratioBlock slot c.referenceSize = .ok block ∧
      Runs ⟨resolve, Hooks.default c.renderTexture c.vector width height ++ more⟩ block m
        (m.withLocal slot (ratioVector c width height)) := by
  obtain ⟨block, hblock, -⟩ := ratioBlock_insertable h (List.mem_singleton_self slot) c.referenceSize
  refine ⟨block, hblock, ?_⟩
  rw [ratioBlock_eq hblock]
  set env : Surroundings := ⟨resolve, Hooks.default c.renderTexture c.vector width height ++ more⟩
  have hfind := MemberKey.find?_default c width height more
  have hvalue : ∃ value, m.local? slot = some value := ⟨_, Array.getElem?_eq_getElem hslot⟩
  obtain ⟨value, hvalue⟩ := hvalue
  have hactive : ∀ rest, Steps env (.call members.getActive) (m.above rest)
      (m.above (.object Hooks.activeTarget :: rest)) := fun rest =>
    .call none [] (.inl rfl) (h.resolve .getActive) (hfind .getActive) rfl rfl rfl rfl
  have hwidth : ∀ rest, Steps env (.callVirtual members.getWidth) (m.above (.object Hooks.activeTarget :: rest))
      (m.above (.int32 width :: rest)) := fun rest =>
    .call (some (.object Hooks.activeTarget)) [] (.inr rfl) (h.resolve .getWidth)
      (hfind .getWidth) rfl rfl rfl rfl
  have hheight : ∀ rest, Steps env (.callVirtual members.getHeight) (m.above (.object Hooks.activeTarget :: rest))
      (m.above (.int32 height :: rest)) := fun rest =>
    .call (some (.object Hooks.activeTarget)) [] (.inr rfl) (h.resolve .getHeight)
      (hfind .getHeight) rfl rfl rfl rfl
  have hmin : ∀ rest, Steps env (.call members.mathMin) (m.above (.int32 height :: .int32 width :: rest))
      (m.above (.int32 (min width height) :: rest)) := fun rest =>
    .call none [.int32 width, .int32 height] (.inl rfl) (h.resolve .mathMin) (hfind .mathMin) rfl rfl
      (combine_minimum (MemberKey.mathMin.member c) width height) rfl
  have hctor : Steps env (.call members.vectorCtor) (m.above [.float32 ⟨0x3F800000⟩, .float32 (ratio c width height),
      .float32 (ratio c width height), .address slot]) (m.withLocal slot (ratioVector c width height)) :=
    .call (some (.address slot)) [_, _, _] (.inl rfl) (h.resolve .vectorCtor) (hfind .vectorCtor)
      rfl rfl rfl (Machine.setLocal_eq_ok.2 ⟨hslot, rfl⟩)
  exact .cons (m := m.above []) (.loadLocalAddress hvalue) hm <| .cons (hactive _) hm <| .cons (hwidth _) hm <|
    .cons (hactive _) hm <| .cons (hheight _) hm <| .cons (hmin _) hm <| .cons (.convR4 _) hm <|
    .cons (.loadFloat32 _) hm <| .cons (.div _ _) hm <| .cons .dup hm <| .cons (.loadFloat32 _) hm <|
    .cons hctor hm .nil

/-- **A scale block** multiplies its slot by the ratio. -/
theorem scaleBlock_runs (hm : m.returned = none) {target slot : Local} {a b : Value}
    {x y z x' y' z' : Binary.Single} (ha : m.local? target = some a) (hb : m.local? slot = some b)
    (hxyz : a.vector? = some (x, y, z)) (hxyz' : b.vector? = some (x', y', z')) :
    ∃ block, members.scaleBlock target slot = .ok block ∧
      Runs ⟨resolve, Hooks.default c.renderTexture c.vector width height ++ more⟩ block m
        (m.withLocal target (.vector c.vector (x.mul x') (y.mul y') (z.mul z'))) := by
  have ht : target ∈ [target, slot] := by simp
  have hs : slot ∈ [target, slot] := by simp
  obtain ⟨block, hblock, -⟩ := scaleBlock_insertable h ht hs
  refine ⟨block, hblock, ?_⟩
  rw [scaleBlock_eq hblock]
  have hscale : Hooks.scaleVector c.vector ⟨MemberKey.vectorScale.member c, none, [a, b]⟩ =
      .ok (.vector c.vector (x.mul x') (y.mul y') (z.mul z')) := by
    simp only [Hooks.scaleVector, hxyz, hxyz']
  have hcall : Steps ⟨resolve, Hooks.default c.renderTexture c.vector width height ++ more⟩ (.call members.vectorScale)
      (m.above [b, a]) (m.above [.vector c.vector (x.mul x') (y.mul y') (z.mul z')]) :=
    .call none [a, b] (.inl rfl) (h.resolve .vectorScale)
      (MemberKey.find?_default c width height more .vectorScale) rfl rfl hscale rfl
  have hlt : target.index.toNat < m.locals.size := (Array.getElem?_eq_some_iff.1 ha).1
  exact .cons (m := m.above []) (.loadLocal ha) hm <| .cons (.loadLocal hb) hm <| .cons hcall hm <|
    .cons (.storeLocal hlt) hm .nil

end

/-! ## Imported members -/

/-- **The blocks compute what they are meant to.** For any members that are resolved, from any machine that has not
returned: the ratio block sets a slot to the ratio, a scale block multiplies a slot by another one, component by
component. Nothing else is changed, whatever the types are called and whatever hooks stand behind the standard ones. -/
theorem resolved_blocks_run (c : Config) (m dependency m' : Module) (members : ImportedMembers)
    (hmembers : c.resolveMembers m dependency = .ok (m', members)) (ha : m'.Addressable) (width height : Int32)
    (more : Hooks) (s : Machine) (hs : s.returned = none) :
    let env : Surroundings := ⟨m'.resolve, Hooks.default c.renderTexture c.vector width height ++ more⟩
    (∀ slot : Local, slot.index.toNat < s.locals.size → ∃ block, members.ratioBlock slot c.referenceSize = .ok block ∧
      s.run env block =
        .ok { s with locals := s.locals.setIfInBounds slot.index.toNat (ratioVector c width height) }) ∧
    (∀ (target slot : Local) (a b : Value) (x y z x' y' z' : Binary.Single),
      s.local? target = some a → s.local? slot = some b →
      a.vector? = some (x, y, z) → b.vector? = some (x', y', z') →
      ∃ block, members.scaleBlock target slot = .ok block ∧
        s.run env block = .ok { s with
          locals := s.locals.setIfInBounds target.index.toNat
            (.vector c.vector (x.mul x') (y.mul y') (z.mul z')) }) := by
  intro env
  obtain ⟨vector, -, hout⟩ := Config.resolveMembers_eq_ok.1 hmembers
  cases hout
  have hlinked := Config.importMembers_linked c vector m ha
  constructor
  · intro slot hslot
    obtain ⟨block, hblock, hruns⟩ := ratioBlock_runs hlinked width height more hs hslot
    exact ⟨block, hblock, ((Machine.runs_iff hs).1 hruns).1⟩
  · intro target slot a b x y z x' y' z' ha hb hxyz hxyz'
    obtain ⟨block, hblock, hruns⟩ := scaleBlock_runs hlinked width height more hs ha hb hxyz hxyz'
    exact ⟨block, hblock, ((Machine.runs_iff hs).1 hruns).1⟩

/-- a machine with two vectors -/
def twoVectors (x y z x' y' z' : Binary.Single) : Machine :=
  { locals := #[.vector ⟨"UnityEngine", "Vector3"⟩ x y z, .vector ⟨"UnityEngine", "Vector3"⟩ x' y' z'] }

/-- with the members of the library in an empty module, the second vector becomes the ratio, or the first one is scaled
by the second -/
theorem resolved_blocks_run_engine :
    let out := Config.importMembers {} (.valueType ⟨"UnityEngine", "Vector3"⟩) { name := "Assembly-CSharp" }
    let env : Surroundings :=
      ⟨out.1.resolve, Hooks.default ⟨"UnityEngine", "RenderTexture"⟩ ⟨"UnityEngine", "Vector3"⟩ 2048 1536⟩
    let s := twoVectors ⟨0x41200000⟩ ⟨0x41A00000⟩ ⟨0⟩ ⟨0x40000000⟩ ⟨0x40000000⟩ ⟨0x3F800000⟩
    Config.resolveMembers {} { name := "Assembly-CSharp" } engine = .ok out ∧ out.1.Addressable ∧
      s.returned = none ∧
      (∃ block, out.2.ratioBlock ⟨1⟩ ⟨0x44800000⟩ = .ok block ∧
        s.run env block = .ok { s with locals := s.locals.setIfInBounds 1 (ratioVector {} 2048 1536) }) ∧
      ∃ block, out.2.scaleBlock ⟨0⟩ ⟨1⟩ = .ok block ∧
        s.run env block = .ok { s with
          locals := s.locals.setIfInBounds 0 (.vector ⟨"UnityEngine", "Vector3"⟩ (.mul ⟨0x41200000⟩ ⟨0x40000000⟩)
            (.mul ⟨0x41A00000⟩ ⟨0x40000000⟩) (.mul ⟨0⟩ ⟨0x3F800000⟩)) } := by
  intro out env s
  have hmembers : Config.resolveMembers {} { name := "Assembly-CSharp" } engine = .ok out := resolveMembers_engine _
  have haddressable : out.1.Addressable :=
    Config.importMembers_addressable {} (.valueType ⟨"UnityEngine", "Vector3"⟩) { name := "Assembly-CSharp" }
      ⟨by decide, by decide, by decide, by decide⟩ (by decide) (by decide)
  obtain ⟨hratio, hscale⟩ :=
    resolved_blocks_run {} _ engine out.1 out.2 hmembers haddressable 2048 1536 [] s rfl
  exact ⟨hmembers, haddressable, rfl, hratio ⟨1⟩ (by decide), hscale ⟨0⟩ ⟨1⟩ _ _ _ _ _ _ _ _ rfl rfl rfl rfl⟩

end Graft

end CilGraft
