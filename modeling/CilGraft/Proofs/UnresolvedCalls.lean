/-
Calls of methods that a module does not know, in the code that a graft is to change.

The code is looked at in the module that the graft has imported its members into. A token that stands for nothing before
stands for nothing then either, unless it names one of the rows that the import appends.

- `Appended`: the tokens of those rows.
- `run_unresolved_rejected`: any other call of an unknown method that control can get to makes the run fail, and the
  code is left as it is.
- `danglingGame`: a module that calls the row behind its last one. The graft of it succeeds.
-/
import CilGraft.Proofs.FlowPaths
import CilGraft.Proofs.GraftedModule

namespace CilGraft

namespace Module

/-- the token names a row of references that `m'` has and `m` has not -/
def Appended (m m' : Module) (token : Token) : Prop :=
  token.table? = some .memberRef ∧ ∃ n, token.index? = some n ∧ m.memberRefs.size ≤ n ∧ n < m'.memberRefs.size

/-- **What stands for nothing goes on standing for nothing**, unless it names an appended row. -/
theorem Extends.resolve_eq_none {m m' : Module} (h : m.Extends m') {token : Token} (hr : m.resolve token = none)
    (hnew : ¬ m.Appended m' token) : m'.resolve token = none := by
  simp only [Module.resolve] at hr ⊢
  split at hr
  · rw [h.method?, Option.bind_congr fun row _ => h.member? row]
    exact hr
  · rename_i htable
    cases hn : token.index? with
    | none => rfl
    | some n =>
      rw [hn, Option.bind_some, Array.getElem?_eq_none_iff] at hr
      rw [Option.bind_some, Array.getElem?_eq_none_iff]
      by_contra hlt
      exact hnew ⟨htable, n, hn, hr, Nat.lt_of_not_le hlt⟩
  · rfl

end Module

/-! ## Code with a call of an unknown method -/

/-- control can get to a call of a method that the token does not stand for -/
structure CallsUnresolved (b : Body) (resolve : Resolver) (token : Token) : Prop where
  unresolved : resolve token = none
  reached : ∃ before v i, FlowPath b before v ∧ b.instructionAt? v.position = some i ∧ i.isCall = true ∧
    i.method? = some token

/-- a call has no effect without a method -/
theorem Stack.effect_unresolved {c : Stack.Context} {i : Instruction} {token : Token} (hcall : i.isCall = true)
    (htoken : i.method? = some token) (hr : c.resolve token = none) :
    c.effect i = .error (.malformed (.unresolvedCall token)) := by
  have hopcode : i.opcode = .call ∨ i.opcode = .callvirt ∨ i.opcode = .newobj := by
    revert hcall
    unfold Instruction.isCall Instruction.flow
    cases i.opcode <;> decide
  have hcallee : Stack.callee c.resolve i.opcode.mnemonic i = .error (.malformed (.unresolvedCall token)) := by
    simp only [Stack.callee, htoken, hr]
  rcases hopcode with hop | hop | hop
  all_goals
    rw [hop] at hcallee
    simp [Stack.Context.effect, hop, Opcode.stackEffect?, Opcode.row, hcallee, bind, Except.bind]

/-- such code is not disciplined -/
theorem CallsUnresolved.not_disciplined {b : Body} {c : Stack.Context} {token : Token}
    (h : CallsUnresolved b c.resolve token) : ¬ Stack.Disciplined c b := by
  intro hd
  obtain ⟨before, v, i, hpath, hi, hcall, htoken⟩ := h.reached
  obtain ⟨d, hr⟩ := hpath.reaches hd
  obtain ⟨i', e, hi', he, -⟩ := hd.admissible _ hr
  rw [hi] at hi'; cases hi'
  rw [Stack.effect_unresolved hcall htoken h.unresolved] at he
  cases he

namespace Graft

/-- **A call of an unknown method makes a run fail, and the code is left alone.** The method is the one that is to be
changed; control can get to the call from the first instruction on; and the token is not one of a row that the run has
appended. -/
theorem run_unresolved_rejected (g : Graft) (m dependency : Module) (index : Nat) (row : MethodRow) (b : Body)
    (token : Token) (hm : m.Built) (ha : (g.run m dependency).module.Addressable) (htarget : g.IsTarget m index row)
    (hbody : row.body = some b) (hcalls : CallsUnresolved b m.resolve token)
    (hnew : ¬ m.Appended (g.run m dependency).module token) :
    (∃ e, (g.run m dependency).result = .error e) ∧
      (g.run m dependency).module.body? (.ofIndex .methodDef index) = some b := by
  cases h : (g.run m dependency).result with
  | ok report =>
    exfalso
    obtain ⟨imported, members, index', row', b', w, hresolved, hbody', hw, hmodule, -⟩ := run_carries_out hm h
    obtain ⟨rfl, rfl⟩ := htarget.unique hresolved.target
    rw [hmodule, Module.setBody_addressable] at ha
    have hext := hresolved.extends_imported
    have hsame := hresolved.row_body (hext.addressable ha) hbody'
    rw [hbody] at hsame; cases hsame
    have hrefs : (g.run m dependency).module.memberRefs = imported.memberRefs := by
      rw [hmodule, Module.setBody_eq]
    have hnew' : ¬ m.Appended imported token := by
      simpa only [Module.Appended, hrefs] using hnew
    -- what the analysis has accepted is disciplined
    have hwf := (hresolved.body_reachable hm hbody').wellFormed
    have hcalls' : CallsUnresolved b imported.resolve token :=
      ⟨hext.resolve_eq_none hcalls.unresolved hnew', hcalls.reached⟩
    exact CallsUnresolved.not_disciplined (c := .ofSignature imported.resolve row.signature) hcalls'
      ((Stack.analyze_isOk_iff hwf).1 ⟨_, hw.analyzed⟩)
  | error e =>
    have hext := run_error_extends hm ha h
    refine ⟨⟨e, rfl⟩, ?_⟩
    rw [hext.body?, Module.body?, htarget.method? (hext.addressable ha)]
    exact hbody

/-- a method that first calls something else, and then makes a render target active and pushes the matrix -/
def callingBody (token : Token) : Body :=
  sketch [.call token, { opcode := .pop }, { opcode := .ldnull }, .call (.ofIndex .memberRef 0),
    .call (.ofIndex .memberRef 1), { opcode := .ret }]

theorem callingBody_reachable (token : Token) : (callingBody token).Reachable :=
  sketch_reachable (by simp [Instruction.targets, Instruction.call])

/-- control gets to the first call at once -/
theorem callingBody_callsUnresolved {resolve : Resolver} {token : Token} (h : resolve token = none) :
    CallsUnresolved (callingBody token) resolve token :=
  ⟨h, [], ⟨0, true⟩, .call token, .start (Nat.succ_pos 5), rfl, rfl, rfl⟩

/-- a call of nothing that any table has is refused -/
theorem run_unresolved_rejected_callingGame :
    let m := gameWith (callingBody ⟨0x2B000001⟩)
    let r := (Graft.mk {}).run m engine
    m.Built ∧ r.module.Addressable ∧
      (Graft.mk {}).IsTarget m 0 { name := "MulTexProc", flags := 0x0006, signature := .instanceOf .void [.int32]
                                   body := some (callingBody ⟨0x2B000001⟩), owner := 0 } ∧
      CallsUnresolved (callingBody ⟨0x2B000001⟩) m.resolve ⟨0x2B000001⟩ ∧ ¬ m.Appended r.module ⟨0x2B000001⟩ ∧
      (∃ e, r.result = .error e) ∧ r.module.body? (.ofIndex .methodDef 0) = some (callingBody ⟨0x2B000001⟩) := by
  intro m r
  have hbuilt : m.Built := gameWith_built (callingBody_reachable _)
  have haddressable : r.module.Addressable :=
    run_addressable (gameWith_addressable _) (by decide) (by decide)
  have hcalls : CallsUnresolved (callingBody ⟨0x2B000001⟩) m.resolve ⟨0x2B000001⟩ := callingBody_callsUnresolved rfl
  have hnew : ¬ m.Appended r.module ⟨0x2B000001⟩ := fun h => absurd h.1 (by decide)
  exact ⟨hbuilt, haddressable, gameWith_target _, hcalls, hnew,
    run_unresolved_rejected (Graft.mk {}) m engine 0 _ _ _ hbuilt haddressable (gameWith_target _) rfl hcalls hnew⟩

section

variable {resolve : Resolver} (hactive : resolve (.ofIndex .memberRef 0) = some (MemberKey.setActive.member {}))
  (hpush : resolve (.ofIndex .memberRef 1) = some pushMatrix)
  (hget : resolve (.ofIndex .memberRef 2) = some (MemberKey.getActive.member {}))
include hactive hpush hget

/-- the row behind the last one turns out to be one that the graft itself calls -/
theorem callingBody_anchors :
    (Graft.mk {}).activationAnchor.locate (callingBody (.ofIndex .memberRef 2)) resolve = .ok ⟨1, 4⟩ ∧
      (Graft.mk {}).pushAnchor.locate (callingBody (.ofIndex .memberRef 2)) resolve = .ok ⟨1, 4⟩ := by
  constructor
  · refine sketch_activation [.call (.ofIndex .memberRef 2), { opcode := .pop }, { opcode := .ldnull }] hactive rfl ?_
    simp [other_accepts, callTo_accepts hget, MemberKey.member]
  · refine sketch_push [.call (.ofIndex .memberRef 2), { opcode := .pop }, { opcode := .ldnull },
      .call (.ofIndex .memberRef 0)] hpush rfl ?_
    simp [other_accepts, callTo_accepts hget, callTo_accepts hactive, MemberKey.member]

theorem callingBody_analyzed : ∃ r, Stack.analyze (.ofSignature resolve (.instanceOf .void [.int32]))
    (callingBody (.ofIndex .memberRef 2)) = .ok r := by
  have hpop : Usable resolve [] { opcode := .pop } ⟨1, 0⟩ := usable_of_fixed rfl nofun rfl rfl rfl rfl
  have hnull : Usable resolve [] { opcode := .ldnull } ⟨0, 1⟩ := usable_of_fixed rfl nofun rfl rfl rfl rfl
  have hcall : Usable resolve [] (.call (.ofIndex .memberRef 0)) ⟨1, 0⟩ := usable_call (.inl rfl) rfl hactive rfl rfl
  have hcall' : Usable resolve [] (.call (.ofIndex .memberRef 1)) ⟨0, 0⟩ := usable_call (.inl rfl) rfl hpush rfl rfl
  have hcall'' : Usable resolve [] (.call (.ofIndex .memberRef 2)) ⟨0, 1⟩ := usable_call (.inl rfl) rfl hget rfl rfl
  refine sketch_analyzed [.call (.ofIndex .memberRef 2), { opcode := .pop }, { opcode := .ldnull },
    .call (.ofIndex .memberRef 0), .call (.ofIndex .memberRef 1)] [1, 0, 1, 0, 0] ?_ ?_ rfl
  · simp only [List.mem_cons, List.not_mem_nil, or_false, forall_eq_or_imp, forall_eq]
    exact ⟨hcall''.straight, hpop.straight, hnull.straight, hcall.straight, hcall'.straight⟩
  · exact .cons hcall''.effect (by decide) (.cons hpop.effect (by decide) (.cons hnull.effect (by decide)
      (.cons hcall.effect (by decide) (.cons hcall'.effect (by decide) .nil))))

end

/-- a module that calls the row behind its last one -/
def danglingGame : Module := gameWith (callingBody (.ofIndex .memberRef 2))

/-- **Not every call of an unknown method is refused.** The token stands for nothing when the run begins, but it names
the row that the run appends first, and the graft succeeds. -/
theorem run_danglingGame :
    let r := (Graft.mk {}).run danglingGame engine
    danglingGame.Built ∧ r.module.Addressable ∧ Config.validate {} = .ok () ∧
      (Graft.mk {}).IsTarget danglingGame 0
        { name := "MulTexProc", flags := 0x0006, signature := .instanceOf .void [.int32]
          body := some (callingBody (.ofIndex .memberRef 2)), owner := 0 } ∧
      CallsUnresolved (callingBody (.ofIndex .memberRef 2)) danglingGame.resolve (.ofIndex .memberRef 2) ∧
      ∃ report, r.result = .ok report := by
  intro r
  have hbuilt : danglingGame.Built := gameWith_built (callingBody_reachable _)
  have haddressable : r.module.Addressable :=
    run_addressable (gameWith_addressable _) (by decide) (by decide)
  obtain ⟨hactive, hpush, hget⟩ := linkedGame_resolve (callingBody (.ofIndex .memberRef 2))
  obtain ⟨hactivation, hpushAnchor⟩ := callingBody_anchors hactive hpush hget
  obtain ⟨report, hreport, -⟩ := run_gameWith (by simp [Instruction.targets, Instruction.call]) hactivation hpushAnchor
    (callingBody_analyzed hactive hpush hget)
  exact ⟨hbuilt, haddressable, by decide, gameWith_target _, callingBody_callsUnresolved rfl, report, hreport⟩

end Graft

end CilGraft
