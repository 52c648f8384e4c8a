/-
Histories of bodies: any number of bodies, created and edited in any order with any operands, each laid out in an arena.
An operation that fails is part of the history, with the arena as the failure leaves it.

- `Edit.perform`, `Bodies.step`, `Bodies.run`: an operation on an arena, on all arenas there are, and a history.
- `perform_cases`: whatever operation it is, it puts a block in somewhere, and adds locals and clauses (`Edit.Grows`),
  or it fails and has changed nothing.
- `perform_seen`: what is seen of an operation on an arena is the operation on the body.
- `Growth.Fits.sound`, `Growth.Fits.kept`: an arena that grows stays sound, and keeps what it had.
- `run_inv`, `run_kept`: what therefore holds after a history, and what a history leaves as it is.
- `run_seen`: the bodies that a history leaves are coherent, and operations on them are what they are seen as.
- `run_represented`: handles, positions, locals and clauses of all bodies after any history.
-/
import CilGraft.Proofs.Placement

namespace CilGraft

namespace Arena

/-! ## Operations -/

/-- what an operation gives out: handles of instructions and local slots, in this order -/
structure Receipt where
  handles : List Handle := []
  slots : List Local := []

/-- the operations on a body -/
inductive Edit where
  | push (i : Instruction)
  | insertBefore (anchor : Handle) (block : List Instruction)
  | addLocal (type : TypeSig)
  | addClause (c : Clause)
  | insertChecked (anchor : Handle) (block : List Instruction)
  | appendDraft (d : Draft)
  | insertDraft (d : Draft) (anchor : Handle)

namespace Edit

def perform : Edit → Change Receipt
  | push i => return { handles := [← Arena.push i] }
  | insertBefore anchor block => return { handles := ← Arena.insertBefore anchor block }
  | addLocal type => return { slots := [← Arena.addLocal type] }
  | addClause c => do
    Arena.addClause c
    return {}
  | insertChecked anchor block => return { handles := ← Arena.insertChecked anchor block }
  | appendDraft d => return { handles := ← d.placeIn none }
  | insertDraft d anchor => return { handles := ← d.insertIn anchor }

/-- the same operation on a body -/
def onBody (b : Body) : Edit → Except Error (Body × Receipt)
  | push i =>
    let (b, h) := b.push i
    .ok (b, { handles := [h] })
  | insertBefore anchor block => do
    let (b, handles) ← b.insertBefore anchor block
    return (b, { handles })
  | addLocal type => do
    let (b, slot) ← b.addLocal type
    return (b, { slots := [slot] })
  | addClause c => do
    let b ← b.addClause c
    return (b, {})
  | insertChecked anchor block => do
    let (s, record) ← Splicing.insertBefore { body := b } anchor block
    return (s.body, { handles := record.inserted })
  | appendDraft d => do
    let (b, handles) ← d.appendTo b
    return (b, { handles })
  | insertDraft d anchor => do
    let (b, handles) ← d.insertBefore b anchor
    return (b, { handles })

/-- the instructions that an operation is to add -/
def code (a : Arena) : Edit → Except Error (List Instruction)
  | push i => .ok [i]
  | insertBefore _ block | insertChecked _ block => .ok block
  | appendDraft d => Prod.fst <$> d.resolve ⟨a.number, a.cells.size, none⟩
  | insertDraft d anchor => Prod.fst <$> d.resolve ⟨a.number, a.cells.size, some anchor⟩
  | addLocal _ | addClause _ => .ok []

/-- the types of the locals that an operation is to add -/
def types : Edit → List TypeSig
  | addLocal type => [type]
  | _ => []

end Edit

/-- an arena, and all that operations have given out -/
structure Account where
  arena : Arena
  given : Receipt := {}

/-- an operation on the arena; what it gives out goes on the account -/
def Account.edit (s : Account) (e : Edit) : Account :=
  match e.perform.run s.arena with
  | .ok r a => ⟨a, ⟨s.given.handles ++ r.handles, s.given.slots ++ r.slots⟩⟩
  | .error _ a => { s with arena := a }

/-! ## Growth -/

/-- what an operation adds to a body -/
structure Growth where
  position : Nat
  block : List Instruction := []
  types : List TypeSig := []
  clauses : List Clause := []

namespace Growth

/-- the next local slots, for given types -/
def locals (g : Growth) (a : Arena) : List LocalSlot :=
  g.types.mapIdx fun i type => ⟨⟨.ofNat (a.locals.size + i)⟩, type⟩

def arena (g : Growth) (a : Arena) : Arena :=
  { a.insertAt g.position g.block with
    locals := a.locals ++ (g.locals a).toArray
    clauses := a.clauses ++ g.clauses.toArray }

/-- the handles and slots of what is new -/
def receipt (g : Growth) (a : Arena) : Receipt := ⟨a.fresh g.block.length, (g.locals a).map (·.id)⟩

/-- there is such a position, there is room for the locals, and the clauses name instructions of the body -/
structure Fits (g : Growth) (a : Arena) : Prop where
  within : g.position ≤ a.size
  room : a.locals.size + g.types.length ≤ 65536
  named : ∀ c ∈ g.clauses, ∀ h ∈ c.boundaries, (g.arena a).contains h = true

end Growth

variable {a a' a'' : Arena} {e : Edit} {g : Growth} {p : Nat} {h anchor : Handle} {block : List Instruction}

/-- the operation succeeds, and `g` is what it adds -/
structure Edit.Grows (e : Edit) (a : Arena) (g : Growth) : Prop where
  fits : g.Fits a
  run : e.perform.run a = .ok (g.receipt a) (g.arena a)
  code : e.code a = .ok g.block
  types : e.types = g.types

theorem Growth.arena_block (a : Arena) (p : Nat) (block : List Instruction) :
    Growth.arena { position := p, block } a = a.insertAt p block := by
  simp [arena, locals, insertAt]

theorem insertAt_nil (a : Arena) (p : Nat) : a.insertAt p [] = a := by
  have horder : (a.insertAt p []).order = a.order := Array.toList_inj.1 (by simp [insertAt_order, fresh])
  have hcells : (a.insertAt p []).cells = a.cells := by simp [insertAt]
  calc a.insertAt p [] = { a with cells := (a.insertAt p []).cells, order := (a.insertAt p []).order } := rfl
    _ = a := by rw [horder, hcells]

namespace Edit

/-- an operation that puts a block in, and no more -/
theorem grows_block (ha : a.Sound) (hp : p ≤ a.size) (hcode : e.code a = .ok block) (htypes : e.types = [])
    (hrun : e.perform.run a = .ok { handles := a.fresh block.length } (a.insertAt p block)) :
    e.Grows a { position := p, block } := by
  refine ⟨⟨hp, ha.room, by simp⟩, ?_, hcode, htypes⟩
  rw [Growth.arena_block]
  exact hrun

theorem grows_local {type : TypeSig} (hroom : a.locals.size < 65536) :
    (addLocal type).Grows a { position := a.size, types := [type] } := by
  have hrun := run_addLocal a type
  rw [if_pos hroom] at hrun
  refine ⟨⟨le_rfl, hroom, by simp⟩, (run_bind_ok hrun).trans ?_, rfl, rfl⟩
  simp [Growth.arena, Growth.receipt, Growth.locals, insertAt_nil, fresh]

theorem grows_clause (ha : a.Sound) {c : Clause} (hc : c.boundaries.find? (!a.contains ·) = none) :
    (addClause c).Grows a { position := a.size, clauses := [c] } := by
  have hrun := run_addClause a c
  rw [hc] at hrun
  refine ⟨⟨le_rfl, ha.room, fun c' hc' t ht => ?_⟩, (run_bind_ok hrun).trans ?_, rfl, rfl⟩
  · obtain rfl := List.mem_singleton.1 hc'
    have hin : a.contains t = true := by simpa using List.find?_eq_none.1 hc t ht
    exact contains_insertAt hin a.size []
  · simp [Growth.arena, Growth.receipt, Growth.locals, insertAt_nil, fresh]

/-- an operation that places a draft, as a block with clauses, or fails -/
theorem grows_draft (ha : a.Sound) (hp : p ≤ a.size) {anchor : Option Handle} {d : Draft}
    (hanchor : ∀ t ∈ anchor, a.contains t = true)
    (hput : ∀ block, (put anchor block).run a = .ok (a.fresh block.length) (a.insertAt p block))
    (hrun : e.perform.run a = (return { handles := ← d.placeIn anchor } : Change Receipt).run a)
    (hcode : e.code a = Prod.fst <$> d.resolve ⟨a.number, a.cells.size, anchor⟩) (htypes : e.types = []) :
    (∃ g : Growth, e.Grows a g) ∨ ∃ err, e.perform.run a = .error err a := by
  have hplace := d.run_placeIn hanchor hput
  cases hresolve : d.resolve ⟨a.number, a.cells.size, anchor⟩ with
  | error err =>
    rw [hresolve] at hplace
    exact Or.inr ⟨err, hrun.trans (run_bind_error hplace)⟩
  | ok code =>
    have hnamed := @Draft.resolve_contained d a p anchor code.1 code.2 hanchor hresolve
    rw [hresolve] at hplace hcode
    refine Or.inl ⟨{ position := p, block := code.1, clauses := code.2 }, ⟨hp, ha.room, hnamed⟩, ?_, hcode, htypes⟩
    refine (hrun.trans (run_bind_ok hplace)).trans ?_
    simp [Growth.arena, Growth.receipt, Growth.locals, placed, insertAt]

end Edit

/-- **What an operation does.** It puts its code in at some position, and adds locals and clauses behind those that are
there; or it fails, and leaves the arena as it was. -/
theorem perform_cases (ha : a.Sound) (e : Edit) :
    (∃ g : Growth, e.Grows a g) ∨ ∃ err, e.perform.run a = .error err a := by
  cases e with
  | push i => exact Or.inl ⟨_, Edit.grows_block ha le_rfl rfl rfl (run_bind_ok (run_push a i))⟩
  | insertBefore anchor block =>
    have hrun := run_insertBefore a anchor block
    cases hp : a.positionOf? anchor with
    | none =>
      rw [hp] at hrun
      exact Or.inr ⟨_, run_bind_error hrun⟩
    | some p =>
      rw [hp] at hrun
      exact Or.inl ⟨_, Edit.grows_block ha (ha.lt_size_of_positionOf? hp).le rfl rfl (run_bind_ok hrun)⟩
  | addLocal type =>
    have hrun := run_addLocal a type
    by_cases hroom : a.locals.size < 65536
    · exact Or.inl ⟨_, Edit.grows_local hroom⟩
    · rw [if_neg hroom] at hrun
      exact Or.inr ⟨_, run_bind_error hrun⟩
  | addClause c =>
    have hrun := run_addClause a c
    cases hforeign : c.boundaries.find? (!a.contains ·) with
    | some foreign =>
      rw [hforeign] at hrun
      exact Or.inr ⟨_, run_bind_error hrun⟩
    | none => exact Or.inl ⟨_, Edit.grows_clause ha hforeign⟩
  | insertChecked anchor block =>
    have hrun := ha.run_insertChecked anchor block
    by_cases hc : a.contains anchor = true
    · rw [if_pos hc] at hrun
      cases hcheck : forM block (Splicing.checkInstruction a.body) with
      | error err =>
        rw [hcheck] at hrun
        exact Or.inr ⟨_, run_bind_error hrun⟩
      | ok u =>
        obtain ⟨p, hp⟩ := Option.isSome_iff_exists.1 (ha.positionOf?_isSome.2 hc)
        have hinsert := run_insertBefore a anchor block
        rw [hp] at hinsert
        rw [hcheck] at hrun
        have hle := (ha.lt_size_of_positionOf? hp).le
        exact Or.inl ⟨_, Edit.grows_block ha hle rfl rfl (run_bind_ok (hrun.trans hinsert))⟩
    · rw [if_neg hc] at hrun
      exact Or.inr ⟨_, run_bind_error hrun⟩
  | appendDraft d => exact Edit.grows_draft ha le_rfl (by simp) a.run_put_none rfl rfl rfl
  | insertDraft d anchor =>
    have hinsert := d.run_insertIn anchor a
    by_cases hc : a.contains anchor = true
    · rw [if_pos hc] at hinsert
      obtain ⟨p, hp⟩ := Option.isSome_iff_exists.1 (ha.positionOf?_isSome.2 hc)
      have hplace : (Edit.insertDraft d anchor).perform.run a =
          (return { handles := ← d.placeIn (some anchor) } : Change Receipt).run a := by
        rw [Edit.perform, EStateM.run_bind, hinsert]
        rfl
      exact Edit.grows_draft ha (ha.lt_size_of_positionOf? hp).le (by simpa using hc) (run_put_some hp) hplace rfl rfl
    · rw [if_neg hc] at hinsert
      exact Or.inr ⟨_, run_bind_error hinsert⟩

/-- **What is seen of an operation is the operation on the body**, failures included. -/
theorem perform_seen (ha : a.Sound) (e : Edit) : seen (e.perform.run a) = leaving a.body (e.onBody a.body) := by
  cases e with
  | push i => rw [Edit.perform, seen_return, ha.seen_push]; rfl
  | insertBefore anchor block =>
    rw [Edit.perform, seen_return, ha.seen_insertBefore, Edit.onBody]
    cases a.body.insertBefore anchor block <;> rfl
  | addLocal type =>
    rw [Edit.perform, seen_return, seen_addLocal, Edit.onBody]
    cases a.body.addLocal type <;> rfl
  | addClause c =>
    rw [Edit.perform, seen_return, ha.seen_addClause, Edit.onBody]
    cases a.body.addClause c <;> rfl
  | insertChecked anchor block =>
    rw [Edit.perform, seen_return, ha.seen_insertChecked anchor block [], Edit.onBody]
    cases Splicing.insertBefore { body := a.body } anchor block <;> rfl
  | appendDraft d =>
    rw [Edit.perform, seen_return, d.seen_append ha, Edit.onBody]
    cases d.appendTo a.body <;> rfl
  | insertDraft d anchor =>
    rw [Edit.perform, seen_return, d.seen_insertIn ha, Edit.onBody]
    cases d.insertBefore a.body anchor <;> rfl

/-! ## What stays -/

/-- What stays of a body: its instructions under their handles and in their order, its locals, and its clauses. -/
structure Kept (a a' : Arena) : Prop where
  number : a'.number = a.number
  contains : ∀ h, a.contains h = true → a'.contains h = true
  get? : ∀ h, a.contains h = true → a'.get? h = a.get? h
  order : ∀ h k p q, a.positionOf? h = some p → a.positionOf? k = some q →
    ∃ p' q', a'.positionOf? h = some p' ∧ a'.positionOf? k = some q' ∧ (p' < q' ↔ p < q)
  locals : a.locals.toList <+: a'.locals.toList
  clauses : a.clauses.toList <+: a'.clauses.toList

theorem Kept.refl (a : Arena) : a.Kept a :=
  ⟨rfl, fun _ hh => hh, fun _ _ => rfl, fun _ _ p q hp hq => ⟨p, q, hp, hq, Iff.rfl⟩, List.prefix_refl _,
    List.prefix_refl _⟩

theorem Kept.trans (h₁ : a.Kept a') (h₂ : a'.Kept a'') : a.Kept a'' := by
  refine ⟨h₂.number.trans h₁.number, fun h hh => h₂.contains h (h₁.contains h hh), fun h hh => ?_,
    fun h k p q hp hq => ?_, h₁.locals.trans h₂.locals, h₁.clauses.trans h₂.clauses⟩
  · exact (h₂.get? h (h₁.contains h hh)).trans (h₁.get? h hh)
  · obtain ⟨p', q', hp', hq', hlt'⟩ := h₁.order h k p q hp hq
    obtain ⟨p'', q'', hp'', hq'', hlt''⟩ := h₂.order h k p' q' hp' hq'
    exact ⟨p'', q'', hp'', hq'', hlt''.trans hlt'⟩

/-- the arena is sound, and what was given out are its handles and slots, each once and in order -/
structure Account.Sound (s : Account) : Prop where
  arena : s.arena.Sound
  handles : s.given.handles = s.arena.issued
  slots : s.given.slots = s.arena.locals.toList.map (·.id)

structure Account.Kept (s s' : Account) : Prop where
  arena : s.arena.Kept s'.arena
  handles : s.given.handles <+: s'.given.handles
  slots : s.given.slots <+: s'.given.slots

theorem Account.Kept.refl (s : Account) : s.Kept s := ⟨.refl _, List.prefix_refl _, List.prefix_refl _⟩

theorem Account.Kept.trans {s s' s'' : Account} (h₁ : s.Kept s') (h₂ : s'.Kept s'') : s.Kept s'' :=
  ⟨h₁.arena.trans h₂.arena, h₁.handles.trans h₂.handles, h₁.slots.trans h₂.slots⟩

/-- an old handle is where the block leaves its instruction -/
theorem Sound.insertAt_positionOf? (ha : a.Sound) (hp : p ≤ a.size) (hc : a.contains h = true) :
    (a.insertAt p block).positionOf? h = (a.positionOf? h).map (Body.shift p block.length) := by
  have hp' : p ≤ a.body.size := hp.trans_eq a.body_size.symm
  have hc' := (ha.body_contains h).trans hc
  rw [← (ha.insertAt p block).body_positionOf?, ha.insertAt_body,
    Body.insertAt_positionOf? ha.coherent hp' (.of_contains hc'), ha.body_positionOf?]

namespace Growth.Fits

/-- an arena that grows stays sound -/
theorem sound (hg : g.Fits a) (ha : a.Sound) : (g.arena a).Sound := by
  have hsize : (g.arena a).locals.size = a.locals.size + g.types.length := by simp [arena, locals]
  refine ⟨(ha.insertAt g.position g.block).order, ?_, hsize.trans_le hg.room, fun c hc h hh => ?_⟩
  · rw [hsize, List.range_add, List.map_append, List.map_map, ← ha.ids]
    have hnew : (g.locals a).map (·.id) = (List.range g.types.length).map fun i => ⟨.ofNat (a.locals.size + i)⟩ :=
      List.ext_getElem (by simp [locals]) fun k hk hk' => by simp [locals]
    simp only [arena, Array.toList_append, List.map_append, hnew]
    rfl
  · rcases Array.mem_append.1 hc with hold | hnew
    · exact contains_insertAt (ha.clauses c hold h hh) g.position g.block
    · exact hg.named c (List.mem_toArray.1 hnew) h hh

/-- old instructions move up together, so they keep their order -/
theorem kept (hg : g.Fits a) (ha : a.Sound) : a.Kept (g.arena a) := by
  have hposition : ∀ h p, a.positionOf? h = some p →
      (g.arena a).positionOf? h = some (Body.shift g.position g.block.length p) := by
    intro h p hp
    have hin : a.contains h = true := ha.positionOf?_isSome.1 (by rw [hp]; rfl)
    refine (ha.insertAt_positionOf? hg.within hin).trans ?_
    rw [hp, Option.map_some]
  refine ⟨rfl, fun h hh => contains_insertAt hh g.position g.block, fun h hh => insertAt_get? hh g.position g.block,
    fun h k p q hp hq => ⟨_, _, hposition h p hp, hposition k q hq, Body.shift_lt_shift⟩, ?_, ?_⟩
  · simp [arena]
  · simp [arena]

/-- the new slots have the types asked for -/
theorem slots_local? (hg : g.Fits a) (ha : a.Sound) :
    (g.receipt a).slots.map (fun slot => ((g.arena a).local? slot).map (·.type)) = g.types.map some := by
  refine List.ext_getElem (by simp [receipt, locals]) fun k hk hk' => ?_
  rw [List.length_map] at hk'
  have hlt : a.locals.size + k < (g.arena a).locals.size := by simpa [arena, locals] using hk'
  have hlocal := (hg.sound ha).local?_ofNat hlt
  simp only [receipt, locals, List.getElem_map, List.getElem_mapIdx, hlocal]
  simp [arena, locals]

end Growth.Fits

/-- the new handles name the block -/
theorem Growth.handles_get? (g : Growth) (a : Arena) :
    (g.receipt a).handles.map (g.arena a).get? = g.block.map some :=
  a.insertAt_map_get?_fresh g.position g.block

/-- an operation that succeeds lets the arena grow; one that fails changes nothing -/
theorem Account.edit_cases {s : Account} (hs : s.arena.Sound) (e : Edit) :
    (∃ g : Growth, g.Fits s.arena ∧ s.edit e = ⟨g.arena s.arena,
      ⟨s.given.handles ++ (g.receipt s.arena).handles, s.given.slots ++ (g.receipt s.arena).slots⟩⟩) ∨
    s.edit e = s := by
  rcases perform_cases hs e with ⟨g, hg⟩ | ⟨err, hrun⟩
  · refine Or.inl ⟨g, hg.fits, ?_⟩
    rw [Account.edit, hg.run]
  · refine Or.inr ?_
    rw [Account.edit, hrun]

/-- **An operation keeps an account sound**, whether it fails or not. -/
theorem Account.Sound.edit {s : Account} (hs : s.Sound) (e : Edit) : (s.edit e).Sound := by
  rcases Account.edit_cases hs.arena e with ⟨g, hg, hedit⟩ | hedit
  · have hissued : (g.arena s.arena).issued = s.arena.issued ++ (g.receipt s.arena).handles :=
      s.arena.insertAt_issued g.position g.block
    rw [hedit]
    refine ⟨hg.sound hs.arena, ?_, ?_⟩
    · rw [hissued, ← hs.handles]
    · simp only [Growth.arena, Growth.receipt, Array.toList_append, List.map_append, hs.slots]
  · rw [hedit]
    exact hs

/-- **An operation keeps what was there**, whether it fails or not. -/
theorem Account.Sound.kept_edit {s : Account} (hs : s.Sound) (e : Edit) : s.Kept (s.edit e) := by
  rcases Account.edit_cases hs.arena e with ⟨g, hg, hedit⟩ | hedit
  · rw [hedit]
    exact ⟨hg.kept hs.arena, List.prefix_append _ _, List.prefix_append _ _⟩
  · rw [hedit]
    exact .refl s

/-! ## Representation -/

/-- how an arena represents the code of a body, and what it has given out -/
structure Account.Represented (s : Account) : Prop where
  /-- the order of the code is made of the handles of all slots, each once -/
  order : s.arena.order.toList.Perm ((List.range s.arena.cells.size).map (⟨s.arena.number, ·⟩))
  size : s.arena.size = s.arena.cells.size
  /-- the handles are the ones that were given out -/
  handles : s.given.handles = (List.range s.arena.cells.size).map (⟨s.arena.number, ·⟩)
  get?_isSome : ∀ h, (s.arena.get? h).isSome = true ↔ s.arena.contains h = true
  positionOf?_isSome : ∀ h, (s.arena.positionOf? h).isSome = true ↔ s.arena.contains h = true
  handleAt?_eq : ∀ h p, s.arena.positionOf? h = some p → s.arena.handleAt? p = some h
  /-- each local slot is numbered by its place in the table, and this is what was given out -/
  ids : ∀ i (hi : i < s.arena.locals.size), s.arena.locals[i].id.index.toNat = i
  slots : s.given.slots = s.arena.locals.toList.map (·.id)
  local?_eq : ∀ i (hi : i < s.arena.locals.size), s.arena.local? ⟨.ofNat i⟩ = some s.arena.locals[i]
  room : s.arena.locals.size ≤ 65536
  clauses : ∀ c ∈ s.arena.clauses, ∀ h ∈ c.boundaries, s.arena.contains h = true

theorem Account.Sound.represented {s : Account} (hs : s.Sound) : s.Represented := by
  have ha := hs.arena
  refine ⟨ha.order, ha.size, hs.handles, fun h => get?_isSome, fun h => ha.positionOf?_isSome,
    fun h p hp => ha.positionOf?_eq_some.1 hp, fun i hi => ha.index_eq hi, hs.slots, fun i hi => ha.local?_ofNat hi,
    ha.room, ha.clauses⟩

end Arena

/-! ## Histories -/

/-- all bodies there are, in the order in which they were created -/
structure Bodies where
  supply : Arena.Supply := {}
  all : List Arena.Account := []

inductive Operation where
  | create
  /-- an operation on one of the bodies, known by the place where it was created -/
  | edit (n : Nat) (e : Arena.Edit)

namespace Bodies

open Arena

def step (w : Bodies) : Operation → Bodies
  | .create =>
    let (arena, supply) := Arena.create w.supply
    { supply, all := w.all ++ [{ arena }] }
  | .edit n e => { w with all := w.all.modify n (·.edit e) }

def run (w : Bodies) (ops : List Operation) : Bodies := ops.foldl step w

/-- the bodies are numbered from one on -/
structure Inv (w : Bodies) : Prop where
  supply : w.supply.next = w.all.length + 1
  numbers : ∀ (n : Nat) (s : Account), w.all[n]? = some s → s.arena.number = n + 1
  sound : ∀ (n : Nat) (s : Account), w.all[n]? = some s → s.Sound

/-- each body is where it was, with all that it had -/
def Kept (w w' : Bodies) : Prop :=
  ∀ (n : Nat) (s : Account), w.all[n]? = some s → ∃ s', w'.all[n]? = some s' ∧ s.Kept s'

variable {w : Bodies}

theorem inv_empty : Bodies.Inv {} := by
  refine ⟨rfl, fun n s hs => ?_, fun n s hs => ?_⟩ <;> cases hs

theorem create_cases {n : Nat} {s : Account} (h : (w.step .create).all[n]? = some s) :
    w.all[n]? = some s ∨ n = w.all.length ∧ s = { arena := .empty w.supply.next } := by
  rcases Nat.lt_trichotomy n w.all.length with hlt | rfl | hgt
  · exact Or.inl ((List.getElem?_append_left hlt).symm.trans h)
  · exact Or.inr ⟨rfl, by simpa [step, Arena.create, eq_comm] using h⟩
  · rw [List.getElem?_eq_none (by simp [step]; omega)] at h
    cases h

theorem edit_cases {n m : Nat} {e : Edit} {s : Account} (h : (w.step (.edit n e)).all[m]? = some s) :
    ∃ s₀ : Account, w.all[m]? = some s₀ ∧ (s = s₀ ∨ s = s₀.edit e) := by
  simp only [step, List.getElem?_modify, Option.map_eq_map, Option.map_eq_some_iff] at h
  obtain ⟨s₀, hs₀, rfl⟩ := h
  refine ⟨s₀, hs₀, ?_⟩
  split_ifs
  · exact Or.inr rfl
  · exact Or.inl rfl

theorem step_inv (hw : w.Inv) (op : Operation) : (w.step op).Inv := by
  cases op with
  | create =>
    refine ⟨by simp [step, Arena.create, hw.supply], fun n s hs => ?_, fun n s hs => ?_⟩
    · rcases create_cases hs with hold | ⟨rfl, rfl⟩
      · exact hw.numbers n s hold
      · exact hw.supply
    · rcases create_cases hs with hold | ⟨-, rfl⟩
      · exact hw.sound n s hold
      · exact ⟨sound_empty _, rfl, rfl⟩
  | edit n e =>
    refine ⟨by simp [step, hw.supply], fun m s hs => ?_, fun m s hs => ?_⟩
    · obtain ⟨s₀, hs₀, rfl | rfl⟩ := edit_cases hs
      · exact hw.numbers m s hs₀
      · exact ((hw.sound m s₀ hs₀).kept_edit e).arena.number.trans (hw.numbers m s₀ hs₀)
    · obtain ⟨s₀, hs₀, rfl | rfl⟩ := edit_cases hs
      · exact hw.sound m s hs₀
      · exact (hw.sound m s₀ hs₀).edit e

theorem step_kept (hw : w.Inv) (op : Operation) : w.Kept (w.step op) := by
  intro n s hs
  cases op with
  | create =>
    have hlt := (List.getElem?_eq_some_iff.1 hs).1
    exact ⟨s, (List.getElem?_append_left hlt).trans hs, .refl s⟩
  | edit m e =>
    simp only [step, List.getElem?_modify, hs]
    by_cases hm : m = n
    · exact ⟨s.edit e, by simp [hm], (hw.sound n s hs).kept_edit e⟩
    · exact ⟨s, by simp [hm], .refl s⟩

theorem run_inv (hw : w.Inv) (ops : List Operation) : (w.run ops).Inv := by
  induction ops generalizing w with
  | nil => exact hw
  | cons op ops ih => exact ih (step_inv hw op)

theorem run_kept (hw : w.Inv) (ops : List Operation) : w.Kept (w.run ops) := by
  induction ops generalizing w with
  | nil => exact fun n s hs => ⟨s, hs, .refl s⟩
  | cons op ops ih =>
    intro n s hs
    obtain ⟨s', hs', hkept'⟩ := step_kept hw op n s hs
    obtain ⟨s'', hs'', hkept''⟩ := ih (step_inv hw op) n s' hs'
    exact ⟨s'', hs'', hkept'.trans hkept''⟩

/-- **After any history bodies are what they are seen as.** An operation on an arena is the operation on its body, which
is coherent. -/
theorem run_seen (ops : List Operation) {s : Account} (hs : s ∈ (run {} ops).all) (e : Edit) :
    s.arena.body.Coherent ∧ seen (e.perform.run s.arena) = leaving s.arena.body (e.onBody s.arena.body) := by
  obtain ⟨n, hn⟩ := List.getElem?_of_mem hs
  have ha := ((run_inv inv_empty ops).sound n s hn).arena
  exact ⟨ha.coherent, perform_seen ha e⟩

/-! ## Any history -/

/-- what holds of all bodies -/
structure Represented (w : Bodies) : Prop where
  bodies : ∀ s ∈ w.all, s.Represented
  /-- a handle that one body has given out is in no other -/
  apart : ∀ (n m : Nat) (s s' : Account), w.all[n]? = some s → w.all[m]? = some s' →
    ∀ h ∈ s.given.handles, s'.arena.contains h = true ↔ n = m
  /-- an operation that succeeds gives out handles for its instructions and slots for its locals -/
  added : ∀ s ∈ w.all, ∀ (e : Edit) (r : Receipt) (a : Arena), e.perform.run s.arena = .ok r a →
    ∃ block, e.code s.arena = .ok block ∧ r.handles.map a.get? = block.map some ∧
      r.slots.map (fun slot => (a.local? slot).map (·.type)) = e.types.map some
  /-- an operation that fails changes nothing -/
  failed : ∀ s ∈ w.all, ∀ (e : Edit) (err : Error) (a : Arena), e.perform.run s.arena = .error err a → a = s.arena

theorem Inv.represented (hw : w.Inv) : w.Represented := by
  have hsound : ∀ s ∈ w.all, s.Sound := by
    intro s hs
    obtain ⟨n, hn⟩ := List.getElem?_of_mem hs
    exact hw.sound n s hn
  refine ⟨fun s hs => (hsound s hs).represented, fun n m s s' hs hs' h hh => ?_, fun s hs e r a hrun => ?_,
    fun s hs e err a hrun => ?_⟩
  · rw [(hw.sound n s hs).handles] at hh
    obtain ⟨slot, hslot, rfl⟩ := List.mem_map.1 hh
    rw [contains_iff, hw.numbers n s hs, hw.numbers m s' hs']
    constructor
    · exact fun ⟨hnumber, _⟩ => Nat.succ.inj hnumber
    · rintro rfl
      rw [hs] at hs'
      cases hs'
      exact ⟨rfl, List.mem_range.1 hslot⟩
  · have ha := (hsound s hs).arena
    rcases perform_cases ha e with ⟨g, hg⟩ | ⟨err, herror⟩
    · rw [hg.run] at hrun
      cases hrun
      refine ⟨g.block, hg.code, g.handles_get? s.arena, ?_⟩
      rw [hg.types]
      exact hg.fits.slots_local? ha
    · rw [herror] at hrun
      cases hrun
  · rcases perform_cases (hsound s hs).arena e with ⟨g, hg⟩ | ⟨err', herror⟩
    · rw [hg.run] at hrun
      cases hrun
    · rw [herror] at hrun
      cases hrun
      rfl

/-- **Any history.** After any operations on any number of bodies, failed ones among them, the bodies represent their
code, and whatever operations follow, each body keeps its instructions under their handles and in their order. -/
theorem run_represented (ops more : List Operation) :
    (run {} ops).Represented ∧ (run {} ops).Kept (run {} (ops ++ more)) := by
  have hinv : (run {} ops).Inv := run_inv inv_empty ops
  refine ⟨hinv.represented, ?_⟩
  have happend : run {} (ops ++ more) = (run {} ops).run more := List.foldl_append
  rw [happend]
  exact run_kept hinv more

/-- an anchor of another body is refused; a block in front of its anchor gets the handles behind all others -/
example : (run {} [.create, .create, .edit 0 (.push ⟨.ret, .none⟩), .edit 1 (.push ⟨.ret, .none⟩),
    .edit 1 (.insertBefore ⟨1, 0⟩ [⟨.nop, .none⟩]), .edit 0 (.insertBefore ⟨1, 0⟩ [⟨.nop, .none⟩])]).all.map
      (fun s => (s.given.handles, s.arena.order.toList)) =
        [([⟨1, 0⟩, ⟨1, 1⟩], [⟨1, 1⟩, ⟨1, 0⟩]), ([⟨2, 0⟩], [⟨2, 0⟩])] := by
  decide +kernel

end Bodies

end CilGraft
