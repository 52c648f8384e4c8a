/-
Drafts as calls write them: which labels resolve, and what the code becomes when it is placed.

- `Draft.written`: the draft after any calls. A call that fails (an operand that does not fit, a label that is there
  already) leaves it as it was.
- `emitted`, `declared`, `DefinedAt`: what the calls say, read off the list of calls and not off the draft. A label
  stands where it is defined first. `written_items`, `written_regions`, `lookup_written`: the draft says the same.
- `Lands`: the handle that a label comes to, which is that of the instruction emitted next, or the anchor.
- `resolve_made`, `resolve_isOk_iff`: what a draft resolves to, and when it does.
- `written_placed`: when a draft can be placed, what is in the body then, and that nothing is lost on the way.
-/
import CilGraft.Proofs.Placement

namespace CilGraft

namespace Draft

/-! ## Calls -/

/-- the calls that write a draft; what has a short form emits an instruction -/
inductive Call where
  | emit (i : Instruction)
  | jump (jump : Jump) (label : String)
  | switch (labels : List String)
  | label (name : String)
  | region (r : Region)
deriving DecidableEq

def call (d : Draft) : Call → Except Error Draft
  | .emit i => d.emit i
  | .jump j label => .ok (d.jump j label)
  | .switch labels => .ok (d.switch labels)
  | .label name => d.label name
  | .region r => .ok (d.region r)

/-- a call that fails leaves the draft as it was -/
def write (d : Draft) (c : Call) : Draft :=
  match d.call c with
  | .ok d' => d'
  | .error _ => d

/-- the draft that calls have written, failed ones among them -/
def written (calls : List Call) : Draft := calls.foldl write {}

/-! ## What the calls say -/

/-- what a call emits; an instruction whose operand does not fit is refused -/
def Call.item? : Call → Option Item
  | .emit i => if i.isValid then some (.ready i) else none
  | .jump j name => some (.jump j name)
  | .switch names => some (.switch names)
  | .label _ => none
  | .region _ => none

def Call.region? : Call → Option Region
  | .region r => some r
  | _ => none

def emitted (calls : List Call) : List Item := calls.filterMap Call.item?

def declared (calls : List Call) : List Region := calls.filterMap Call.region?

/-- a label is defined behind so many instructions; the first definition counts -/
def DefinedAt (calls : List Call) (name : String) (n : Nat) : Prop :=
  ∃ before after, calls = before ++ .label name :: after ∧ .label name ∉ before ∧ n = (emitted before).length

def Defined (calls : List Call) (name : String) : Prop := .label name ∈ calls

/-- something is emitted behind the definition of a label -/
def Precedes (calls : List Call) (name : String) : Prop :=
  ∃ before after, calls = before ++ .label name :: after ∧ .label name ∉ before ∧ emitted after ≠ []

/-- the labels that an item names -/
def Item.labels : Item → List String
  | .ready _ => []
  | .jump _ label => [label]
  | .switch labels => labels

/-- the labels of a region that have to be instructions -/
def Region.starts (r : Region) : List String := [r.tryStart, r.handlerStart]

/-- the labels of a region that may be the end of a body -/
def Region.ends (r : Region) : List String := r.tryEnd :: r.handlerEnd.toList

def targets (calls : List Call) : List String :=
  (emitted calls).flatMap Item.labels ++ (declared calls).flatMap Region.starts

def ends (calls : List Call) : List String := (declared calls).flatMap Region.ends

/-- A label comes to the instruction emitted next behind it. Where there is none it comes to the anchor, and without an
anchor to nothing. -/
def Lands (calls : List Call) (new : List Handle) (anchor : Option Handle) (label : String) (t : Option Handle) :
    Prop := ∃ n, DefinedAt calls label n ∧ t = new[n]?.or anchor

/-- the instruction that an item comes to, with labels where they land -/
def Item.Made (lands : String → Option Handle → Prop) : Item → Instruction → Prop
  | .ready i, made => made = i
  | .jump j label, made => ∃ t, lands label (some t) ∧ made = ⟨j.opcode, .target t⟩
  | .switch labels, made =>
    ∃ ts, List.Forall₂ (fun label t => lands label (some t)) labels ts ∧ made = ⟨.switch, .switch ts⟩

/-- the clause that a region comes to; a handler without an end label goes to the end of the body -/
structure Region.Made (lands : String → Option Handle → Prop) (r : Region) (c : Clause) : Prop where
  flags : c.flags = r.flags
  tryStart : lands r.tryStart (some c.tryStart)
  tryEnd : lands r.tryEnd c.tryEnd
  handlerStart : lands r.handlerStart (some c.handlerStart)
  handlerEnd : ∀ label ∈ r.handlerEnd, lands label c.handlerEnd
  handlerOpen : r.handlerEnd = none → c.handlerEnd = none
  filterStart : c.filterStart = none
  catchType : c.catchType = r.catchType

/-- `b'` is `b` with the code of calls in front of a position, and their regions behind its clauses -/
structure Placed (calls : List Call) (b : Body) (p : Nat) (anchor : Option Handle) (b' : Body) (new : List Handle) :
    Prop where
  /-- the new code is in one piece, and the old code around it -/
  handles : b'.handles = b.handles.take p ++ new ++ b.handles.drop p
  fresh : ∀ h ∈ new, b.contains h = false
  /-- the new instructions are the emitted ones, in this order -/
  made : ∃ block, new.map b'.get? = block.map some ∧
    List.Forall₂ (Item.Made (Lands calls new anchor)) (emitted calls) block
  old : ∀ h, b.contains h = true → b'.get? h = b.get? h
  /-- there is a clause for every region, in this order -/
  clauses : ∃ added, b'.clauses.toList = b.clauses.toList ++ added ∧
    List.Forall₂ (Region.Made (Lands calls new anchor)) (declared calls) added
  number : b'.number = b.number
  locals : b'.locals = b.locals
  header : b'.maxStack = b.maxStack ∧ b'.initLocals = b.initLocals

/-! ## The draft says what the calls say -/

variable {calls : List Call} {c : Call} {name label : String} {n : Nat}

theorem written_snoc : written (calls ++ [c]) = (written calls).write c := by
  simp [written]

theorem emitted_append (calls calls' : List Call) : emitted (calls ++ calls') = emitted calls ++ emitted calls' :=
  List.filterMap_append

theorem declared_append (calls calls' : List Call) : declared (calls ++ calls') = declared calls ++ declared calls' :=
  List.filterMap_append

/-- an instruction is emitted if its operand fits -/
theorem write_emit (d : Draft) (i : Instruction) :
    d.write (.emit i) = if i.isValid then { d with items := d.items.push (.ready i) } else d := by
  unfold write call emit Instruction.validate
  by_cases hi : i.isValid = true <;> simp [hi, bind, Except.bind, pure, Except.pure]

/-- a label is defined if it is new -/
theorem write_label (d : Draft) (name : String) : d.write (.label name) =
    if (d.labels.lookup name).isSome then d else { d with labels := (name, d.size) :: d.labels } := by
  unfold write call label
  cases hl : d.labels.lookup name <;> simp [hl]

theorem write_items (d : Draft) (c : Call) : (d.write c).items.toList = d.items.toList ++ c.item?.toList := by
  cases c with
  | emit i =>
    rw [write_emit, Call.item?]
    split_ifs <;> simp
  | jump j label => simp [write, call, jump, Call.item?]
  | switch labels => simp [write, call, switch, Call.item?]
  | label name =>
    rw [write_label]
    split_ifs <;> simp [Call.item?]
  | region r => simp [write, call, region, Call.item?]

theorem write_regions (d : Draft) (c : Call) : (d.write c).regions.toList = d.regions.toList ++ c.region?.toList := by
  cases c with
  | emit i =>
    rw [write_emit]
    split_ifs <;> simp [Call.region?]
  | jump j label => simp [write, call, jump, Call.region?]
  | switch labels => simp [write, call, switch, Call.region?]
  | label name =>
    rw [write_label]
    split_ifs <;> simp [Call.region?]
  | region r => simp [write, call, region, Call.region?]

theorem written_items (calls : List Call) : (written calls).items.toList = emitted calls := by
  induction calls using List.reverseRecOn with
  | nil => rfl
  | append_singleton calls c ih =>
    rw [written_snoc, write_items, ih, emitted_append]
    cases hc : c.item? <;> simp [emitted, hc]

theorem written_size (calls : List Call) : (written calls).size = (emitted calls).length := by
  rw [← written_items, size, Array.length_toList]

theorem written_regions (calls : List Call) : (written calls).regions.toList = declared calls := by
  induction calls using List.reverseRecOn with
  | nil => rfl
  | append_singleton calls c ih =>
    rw [written_snoc, write_regions, ih, declared_append]
    cases hc : c.region? <;> simp [declared, hc]

/-- a call defines a label behind all that has been emitted, unless the label is there already -/
theorem lookup_write (d : Draft) (c : Call) (name : String) : (d.write c).labels.lookup name =
    (d.labels.lookup name).or (if c = .label name then some d.size else none) := by
  cases c with
  | emit i =>
    have hother : ¬ Call.emit i = .label name := by simp
    rw [write_emit, if_neg hother, Option.or_none]
    split_ifs <;> rfl
  | jump j label => simp [write, call, jump]
  | switch labels => simp [write, call, switch]
  | label other =>
    rw [write_label]
    by_cases hname : other = name
    · subst hname
      cases hl : d.labels.lookup other <;> simp [hl]
    · have hbeq : (name == other) = false := beq_eq_false_iff_ne.2 (Ne.symm hname)
      cases hl : d.labels.lookup other <;> simp [hname, List.lookup_cons, hbeq]
  | region r => simp [write, call, region]

/-- the last call defines a label only if none before it does -/
theorem definedAt_snoc : DefinedAt (calls ++ [c]) name n ↔
    DefinedAt calls name n ∨ (¬ Defined calls name ∧ c = .label name ∧ n = (emitted calls).length) := by
  constructor
  · rintro ⟨before, after, hcalls, hfirst, rfl⟩
    rcases List.eq_nil_or_concat after with rfl | ⟨after, last, rfl⟩
    · obtain ⟨rfl, hc⟩ := List.append_inj' hcalls rfl
      exact Or.inr ⟨hfirst, by simpa using hc, rfl⟩
    · rw [List.concat_eq_append, ← List.cons_append, ← List.append_assoc] at hcalls
      obtain ⟨rfl, -⟩ := List.append_inj' hcalls rfl
      exact Or.inl ⟨before, after, rfl, hfirst, rfl⟩
  · rintro (⟨before, after, rfl, hfirst, rfl⟩ | ⟨hnew, rfl, rfl⟩)
    · exact ⟨before, after ++ [c], by simp, hfirst, rfl⟩
    · exact ⟨calls, [], rfl, hnew, rfl⟩

theorem defined_iff : Defined calls name ↔ ∃ n, DefinedAt calls name n := by
  constructor
  · intro h
    obtain ⟨before, after, hcalls, hfirst⟩ := List.eq_append_cons_of_mem h
    exact ⟨_, before, after, hcalls, hfirst, rfl⟩
  · rintro ⟨n, before, after, rfl, -, -⟩
    simp [Defined]

/-- **Where a label is defined**, in the draft as by the calls. -/
theorem lookup_written : (written calls).labels.lookup name = some n ↔ DefinedAt calls name n := by
  induction calls using List.reverseRecOn generalizing n with
  | nil => simp [written, DefinedAt]
  | append_singleton calls c ih =>
    rw [written_snoc, lookup_write, definedAt_snoc, defined_iff, Option.or_eq_some_iff, written_size]
    have hnone : (written calls).labels.lookup name = none ↔ ¬ ∃ n, DefinedAt calls name n := by
      rw [Option.eq_none_iff_forall_ne_some, not_exists]
      exact forall_congr' fun k => not_congr ih
    rw [ih, hnone]
    refine or_congr_right (and_congr_right fun _ => ?_)
    split_ifs with hc
    · simp [hc, eq_comm]
    · simp [hc]

theorem Precedes.defined (h : Precedes calls name) : Defined calls name := by
  obtain ⟨before, after, rfl, -, -⟩ := h
  exact List.mem_append_right _ List.mem_cons_self

theorem DefinedAt.unique {m : Nat} (h : DefinedAt calls name n) (h' : DefinedAt calls name m) : n = m :=
  Option.some_injective _ ((lookup_written.2 h).symm.trans (lookup_written.2 h'))

theorem precedes_iff : Precedes calls name ↔ ∃ n, DefinedAt calls name n ∧ n < (emitted calls).length := by
  have hlen : ∀ before after : List Call, (emitted (before ++ .label name :: after)).length =
      (emitted before).length + (emitted after).length := by
    intro before after
    have hlabel : emitted (.label name :: after) = emitted after := List.filterMap_cons_none rfl
    rw [emitted_append, List.length_append, hlabel]
  constructor
  · rintro ⟨before, after, rfl, hfirst, hafter⟩
    refine ⟨_, ⟨before, after, rfl, hfirst, rfl⟩, ?_⟩
    rw [hlen]
    exact Nat.lt_add_of_pos_right (List.length_pos_iff.2 hafter)
  · rintro ⟨n, ⟨before, after, rfl, hfirst, rfl⟩, hlt⟩
    rw [hlen] at hlt
    exact ⟨before, after, rfl, hfirst, List.length_pos_iff.1 (by omega)⟩

/-! ## What a draft resolves to -/

section

variable {calls : List Call} {b : Body} {anchor : Option Handle} {label : String} {t : Handle} {n : Nat}

/-- the handles that the code of calls gets -/
def news (calls : List Call) (b : Body) : List Handle := b.fresh (emitted calls).length

theorem spot_eq_ok {spot : Spot} : (written calls).spot label = .ok spot ↔
    ∃ n, DefinedAt calls label n ∧ spot = if n < (emitted calls).length then .emitted n else .behind := by
  unfold Draft.spot
  rw [written_size]
  cases hl : (written calls).labels.lookup label with
  | none =>
    have hnone : ∀ n, ¬ DefinedAt calls label n := by
      intro n hn
      rw [lookup_written.2 hn] at hl
      cases hl
    simp [hnone]
  | some n =>
    have hn := lookup_written.1 hl
    simp only [Except.ok.injEq]
    constructor
    · intro h
      exact ⟨n, hn, h.symm⟩
    · rintro ⟨m, hm, rfl⟩
      rw [hn.unique hm]

/-- the handle of a spot, among the new ones or the anchor -/
theorem handle?_spot (n : Nat) :
    Site.handle? ⟨b.number, b.size, anchor⟩ (if n < (emitted calls).length then .emitted n else .behind) =
      (news calls b)[n]?.or anchor := by
  split_ifs with hn
  · have hnew : (news calls b)[n]? = some ⟨b.number, b.size + n⟩ := Body.fresh_getElem?_eq_some.2 ⟨hn, rfl⟩
    rw [hnew, Option.some_or]
    rfl
  · have hnone : (news calls b)[n]? = none := by
      rw [List.getElem?_eq_none_iff, news, Body.fresh_length]
      exact Nat.le_of_not_lt hn
    rw [hnone, Option.none_or]
    rfl

theorem spot_handle? {spot : Spot} (h : (written calls).spot label = .ok spot) :
    Lands calls (news calls b) anchor label (Site.handle? ⟨b.number, b.size, anchor⟩ spot) := by
  obtain ⟨n, hn, rfl⟩ := spot_eq_ok.1 h
  exact ⟨n, hn, handle?_spot n⟩

theorem handle_eq_ok {s : Site} {spot : Spot} : s.handle label spot = .ok t ↔ s.handle? spot = some t := by
  unfold Site.handle
  cases s.handle? spot <;> simp

theorem target_eq_ok : (written calls).target ⟨b.number, b.size, anchor⟩ label = .ok t ↔
    Lands calls (news calls b) anchor label (some t) := by
  unfold target
  rw [bind_eq_ok]
  constructor
  · rintro ⟨spot, hspot, ht⟩
    rw [← handle_eq_ok.1 ht]
    exact spot_handle? hspot
  · rintro ⟨n, hn, ht⟩
    exact ⟨_, spot_eq_ok.2 ⟨n, hn, rfl⟩, handle_eq_ok.2 ((handle?_spot n).trans ht.symm)⟩

/-- a resolved item is the instruction that the calls ask for -/
theorem instruction_eq_ok {item : Item} {made : Instruction} :
    (written calls).instruction ⟨b.number, b.size, anchor⟩ item = .ok made ↔
      item.Made (Lands calls (news calls b) anchor) made := by
  cases item with
  | ready i =>
    simp [instruction, Item.Made, eq_comm]
  | jump j label =>
    unfold instruction Item.Made
    simp only [bind_eq_ok, target_eq_ok, pure, Except.pure, Except.ok.injEq]
    exact exists_congr fun t => and_congr_right fun _ => eq_comm
  | switch labels =>
    unfold instruction Item.Made
    simp only [bind_eq_ok, mapM_eq_ok, target_eq_ok, pure, Except.pure, Except.ok.injEq]
    exact exists_congr fun ts => and_congr_right fun _ => eq_comm

/-- a resolved region is the clause that the calls ask for -/
theorem clause_made {r : Region} {c : Clause} (h : (written calls).clause ⟨b.number, b.size, anchor⟩ r = .ok c) :
    r.Made (Lands calls (news calls b) anchor) c := by
  obtain ⟨tryStart, htryStart, h⟩ := bind_eq_ok.1 h
  obtain ⟨handlerStart, hhandlerStart, h⟩ := bind_eq_ok.1 h
  obtain ⟨first, hfirst, h⟩ := bind_eq_ok.1 h
  obtain ⟨handler, hhandler, h⟩ := bind_eq_ok.1 h
  obtain ⟨tryEnd, htryEnd, h⟩ := bind_eq_ok.1 h
  obtain ⟨handlerEnd, hhandlerEnd, h⟩ := bind_eq_ok.1 h
  cases h
  refine
    { flags := rfl
      tryStart := handle_eq_ok.1 hfirst ▸ spot_handle? htryStart
      tryEnd := spot_handle? htryEnd
      handlerStart := handle_eq_ok.1 hhandler ▸ spot_handle? hhandlerStart
      handlerEnd := fun label hlabel => ?_
      handlerOpen := fun hnone => ?_
      filterStart := rfl
      catchType := rfl }
  · rw [Option.mem_def.1 hlabel] at hhandlerEnd
    obtain ⟨spot, hspot, hend⟩ := bind_eq_ok.1 hhandlerEnd
    cases hend
    exact spot_handle? hspot
  · rw [hnone] at hhandlerEnd
    cases hhandlerEnd
    rfl

/-! ## When a draft resolves -/

theorem spot_isOk_iff : (∃ spot, (written calls).spot label = .ok spot) ↔ Defined calls label := by
  simp only [spot_eq_ok, defined_iff]
  exact ⟨fun ⟨_, n, hn, _⟩ => ⟨n, hn⟩, fun ⟨n, hn⟩ => ⟨_, n, hn, rfl⟩⟩

/-- in front of an anchor every label that is defined comes to something -/
theorem lands_before {a : Handle} :
    (∃ t, Lands calls (news calls b) (some a) label (some t)) ↔ Defined calls label := by
  rw [defined_iff]
  constructor
  · rintro ⟨t, n, hn, -⟩
    exact ⟨n, hn⟩
  · rintro ⟨n, hn⟩
    refine ⟨((news calls b)[n]?).getD a, n, hn, ?_⟩
    cases (news calls b)[n]? <;> rfl

/-- at the end of a body those do that precede an instruction -/
theorem lands_behind : (∃ t, Lands calls (news calls b) none label (some t)) ↔ Precedes calls label := by
  have hlen : (news calls b).length = (emitted calls).length := Body.fresh_length b _
  rw [precedes_iff, ← hlen]
  constructor
  · rintro ⟨t, n, hn, ht⟩
    rw [Option.or_none] at ht
    exact ⟨n, hn, (List.getElem?_eq_some_iff.1 ht.symm).1⟩
  · rintro ⟨n, hn, hlt⟩
    exact ⟨(news calls b)[n], n, hn, by rw [Option.or_none, List.getElem?_eq_getElem hlt]⟩

theorem instruction_isOk_iff {item : Item} :
    (∃ made, (written calls).instruction ⟨b.number, b.size, anchor⟩ item = .ok made) ↔
      ∀ label ∈ item.labels, ∃ t, Lands calls (news calls b) anchor label (some t) := by
  cases item with
  | ready i => simp [instruction, Item.labels]
  | jump j label =>
    simp only [instruction_eq_ok, Item.Made, Item.labels, List.mem_singleton, forall_eq]
    constructor
    · rintro ⟨_, t, ht, -⟩
      exact ⟨t, ht⟩
    · rintro ⟨t, ht⟩
      exact ⟨_, t, ht, rfl⟩
  | switch labels =>
    simp only [instruction, ← target_eq_ok, ← mapM_isOk_iff, Item.labels]
    constructor
    · rintro ⟨made, h⟩
      obtain ⟨ts, hts, -⟩ := bind_eq_ok.1 h
      exact ⟨ts, hts⟩
    · rintro ⟨ts, hts⟩
      exact ⟨_, bind_eq_ok.2 ⟨ts, hts, rfl⟩⟩

theorem clause_isOk_iff {r : Region} :
    (∃ c, (written calls).clause ⟨b.number, b.size, anchor⟩ r = .ok c) ↔
      (∀ label ∈ r.starts, ∃ t, Lands calls (news calls b) anchor label (some t)) ∧
        ∀ label ∈ r.ends, Defined calls label := by
  simp only [Region.starts, Region.ends, List.mem_cons, List.not_mem_nil, or_false, forall_eq_or_imp, forall_eq,
    Option.mem_toList]
  constructor
  · rintro ⟨c, h⟩
    have hmade := clause_made h
    refine ⟨⟨⟨_, hmade.tryStart⟩, ⟨_, hmade.handlerStart⟩⟩, ?_, fun label hlabel => ?_⟩
    · obtain ⟨n, hn, -⟩ := hmade.tryEnd
      exact defined_iff.2 ⟨n, hn⟩
    · obtain ⟨n, hn, -⟩ := hmade.handlerEnd label hlabel
      exact defined_iff.2 ⟨n, hn⟩
  · rintro ⟨⟨⟨first, hfirst⟩, ⟨handler, hhandler⟩⟩, htryEnd, hhandlerEnd⟩
    obtain ⟨tryStart, htryStart, hfirst⟩ := bind_eq_ok.1 (target_eq_ok.2 hfirst)
    obtain ⟨handlerStart, hhandlerStart, hhandler⟩ := bind_eq_ok.1 (target_eq_ok.2 hhandler)
    obtain ⟨tryEnd, htryEnd⟩ := spot_isOk_iff.2 htryEnd
    have hend : ∃ spots, r.handlerEnd.mapM (written calls).spot = .ok spots := by
      cases hlabel : r.handlerEnd with
      | none => exact ⟨none, rfl⟩
      | some label =>
        obtain ⟨spot, hspot⟩ := spot_isOk_iff.2 (hhandlerEnd label hlabel)
        exact ⟨some spot, bind_eq_ok.2 ⟨spot, hspot, rfl⟩⟩
    obtain ⟨handlerEnd, hend⟩ := hend
    exact ⟨_, bind_eq_ok.2 ⟨tryStart, htryStart, bind_eq_ok.2 ⟨handlerStart, hhandlerStart,
      bind_eq_ok.2 ⟨first, hfirst, bind_eq_ok.2 ⟨handler, hhandler, bind_eq_ok.2 ⟨tryEnd, htryEnd,
        bind_eq_ok.2 ⟨handlerEnd, hend, rfl⟩⟩⟩⟩⟩⟩⟩

/-- **When a draft resolves.** Every label of a jump or of the start of a region comes to something, and every other is
defined. -/
theorem resolve_isOk_iff : (∃ code, (written calls).resolve ⟨b.number, b.size, anchor⟩ = .ok code) ↔
    (∀ label ∈ targets calls, ∃ t, Lands calls (news calls b) anchor label (some t)) ∧
      ∀ label ∈ ends calls, Defined calls label := by
  have hitems := @mapM_isOk_iff _ _ _ ((written calls).instruction ⟨b.number, b.size, anchor⟩) (emitted calls)
  have hregions := @mapM_isOk_iff _ _ _ ((written calls).clause ⟨b.number, b.size, anchor⟩) (declared calls)
  simp only [instruction_isOk_iff] at hitems
  simp only [clause_isOk_iff] at hregions
  have hresolve : (∃ code, (written calls).resolve ⟨b.number, b.size, anchor⟩ = .ok code) ↔
      (∃ block, (emitted calls).mapM ((written calls).instruction ⟨b.number, b.size, anchor⟩) = .ok block) ∧
        ∃ clauses, (declared calls).mapM ((written calls).clause ⟨b.number, b.size, anchor⟩) = .ok clauses := by
    unfold resolve
    rw [written_items, written_regions]
    constructor
    · rintro ⟨code, h⟩
      obtain ⟨block, hblock, h⟩ := bind_eq_ok.1 h
      obtain ⟨clauses, hclauses, -⟩ := bind_eq_ok.1 h
      exact ⟨⟨block, hblock⟩, ⟨clauses, hclauses⟩⟩
    · rintro ⟨⟨block, hblock⟩, ⟨clauses, hclauses⟩⟩
      exact ⟨_, bind_eq_ok.2 ⟨block, hblock, bind_eq_ok.2 ⟨clauses, hclauses, rfl⟩⟩⟩
  rw [hresolve, hitems, hregions]
  simp only [targets, ends, List.mem_append, List.mem_flatMap]
  constructor
  · rintro ⟨hjumps, hclauses⟩
    refine ⟨?_, ?_⟩
    · rintro label (⟨item, hitem, hlabel⟩ | ⟨r, hr, hlabel⟩)
      · exact hjumps item hitem label hlabel
      · exact (hclauses r hr).1 label hlabel
    · rintro label ⟨r, hr, hlabel⟩
      exact (hclauses r hr).2 label hlabel
  · rintro ⟨htargets, hends⟩
    refine ⟨fun item hitem label hlabel => htargets label (Or.inl ⟨item, hitem, hlabel⟩), fun r hr => ⟨?_, ?_⟩⟩
    · intro label hlabel
      exact htargets label (Or.inr ⟨r, hr, hlabel⟩)
    · intro label hlabel
      exact hends label ⟨r, hr, hlabel⟩

/-- what a draft resolves to -/
theorem resolve_made {block : List Instruction} {clauses : List Clause}
    (h : (written calls).resolve ⟨b.number, b.size, anchor⟩ = .ok (block, clauses)) :
    List.Forall₂ (Item.Made (Lands calls (news calls b) anchor)) (emitted calls) block ∧
      List.Forall₂ (Region.Made (Lands calls (news calls b) anchor)) (declared calls) clauses := by
  obtain ⟨block', hblock, h⟩ := bind_eq_ok.1 h
  obtain ⟨clauses', hclauses, h⟩ := bind_eq_ok.1 h
  cases h
  rw [written_items, mapM_eq_ok] at hblock
  rw [written_regions, mapM_eq_ok] at hclauses
  exact ⟨hblock.imp fun _ _ hmade => instruction_eq_ok.1 hmade, hclauses.imp fun _ _ hmade => clause_made hmade⟩

end

/-! ## Placed code -/

theorem placed_made {calls : List Call} {b b' : Body} {p : Nat} {anchor : Option Handle} {new : List Handle}
    {code : List Instruction × List Clause} (hb : b.Coherent) (hp : p ≤ b.size)
    (h : (written calls).resolve ⟨b.number, b.size, anchor⟩ = .ok code)
    (hplaced : b.placed p code.1 code.2 = (b', new)) : Placed calls b p anchor b' new := by
  obtain ⟨block, clauses⟩ := code
  obtain ⟨hblock, hclauses⟩ := resolve_made h
  have hnews : news calls b = b.fresh block.length := by rw [news, hblock.length_eq]
  rw [hnews] at hblock hclauses
  injection hplaced with hbody hnew
  subst hnew
  have hget : b'.get? = (b.insertAt p block).get? := by
    rw [← hbody]
    rfl
  refine
    { handles := ?_
      fresh := fun h hh => Bool.eq_false_iff.2 (Body.not_contains_fresh hh)
      made := ⟨block, ?_, hblock⟩
      old := fun h hh => ?_
      clauses := ⟨clauses, ?_, hclauses⟩
      number := ?_
      locals := ?_
      header := ?_ }
  · rw [← hbody]
    exact Body.insertAt_handles b p block
  · rw [hget]
    exact Body.insertAt_map_get?_fresh hb hp
  · rw [hget]
    exact Body.insertAt_get? hb hp hh
  · simp [← hbody]
  · rw [← hbody]
    rfl
  · rw [← hbody]
    rfl
  · rw [← hbody]
    exact ⟨rfl, rfl⟩

/-- when a draft can be placed at the end of a body -/
theorem appendTo_isOk_iff {calls : List Call} {b : Body} : (∃ placed, (written calls).appendTo b = .ok placed) ↔
    (∀ label ∈ targets calls, Precedes calls label) ∧ ∀ label ∈ ends calls, Defined calls label := by
  rw [appendTo_eq, map_isOk_iff, resolve_isOk_iff]
  simp only [lands_behind]

/-- when a draft can be placed in front of an anchor -/
theorem insertBefore_isOk_iff {calls : List Call} {b : Body} {a : Handle} (hb : b.Coherent) :
    (∃ placed, (written calls).insertBefore b a = .ok placed) ↔
      b.contains a = true ∧ ∀ label ∈ targets calls ++ ends calls, Defined calls label := by
  by_cases hc : b.contains a = true
  · obtain ⟨p, ha⟩ := Option.isSome_iff_exists.1 (hb.positionOf?_isSome.2 hc)
    rw [insertBefore_eq hc ha, map_isOk_iff, resolve_isOk_iff]
    simp only [lands_before, hc, true_and, List.mem_append, or_imp, forall_and]
  · have hrefused : (written calls).insertBefore b a = .error (.invalidAnchor a) := by
      simp only [insertBefore, hc, Bool.not_false, if_true]
      rfl
    simp [hrefused, hc]

/-- **Labels resolve as they were meant, or nothing happens.** For any calls and any coherent body:

- the code can be placed at the end if every label that is named is defined, and those of jumps and of the starts of
  regions precede an instruction; it can be placed in front of an anchor if that is in the body and every label is
  defined;
- then the body has the emitted instructions in one piece, with every label where it lands;
- placing step by step (code, then operands, then clauses) comes to the same, and where it fails the body is as it
  was. -/
theorem written_placed (calls : List Call) (b : Body) (hb : b.Coherent) :
    ((∃ placed, (written calls).appendTo b = .ok placed) ↔
      (∀ label ∈ targets calls, Precedes calls label) ∧ ∀ label ∈ targets calls ++ ends calls, Defined calls label) ∧
    (∀ b' new, (written calls).appendTo b = .ok (b', new) → Placed calls b b.size none b' new) ∧
    (written calls).place b none = leaving b ((written calls).appendTo b) ∧
    ∀ anchor,
      ((∃ placed, (written calls).insertBefore b anchor = .ok placed) ↔
        b.contains anchor = true ∧ ∀ label ∈ targets calls ++ ends calls, Defined calls label) ∧
      (∀ b' new, (written calls).insertBefore b anchor = .ok (b', new) →
        ∃ p, b.positionOf? anchor = some p ∧ Placed calls b p (some anchor) b' new) ∧
      (b.contains anchor = true →
        (written calls).place b (some anchor) = leaving b ((written calls).insertBefore b anchor)) := by
  refine ⟨?_, fun b' new h => ?_, place_append hb,
    fun anchor => ⟨insertBefore_isOk_iff hb, fun b' new h => ?_, place_insert hb⟩⟩
  · rw [appendTo_isOk_iff]
    simp only [List.mem_append, or_imp, forall_and]
    constructor
    · intro ⟨htargets, hends⟩
      exact ⟨htargets, fun label hlabel => (htargets label hlabel).defined, hends⟩
    · rintro ⟨htargets, -, hends⟩
      exact ⟨htargets, hends⟩
  · rw [appendTo_eq] at h
    obtain ⟨code, hcode, hplaced⟩ := map_eq_ok.1 h
    exact placed_made hb le_rfl hcode hplaced
  · have hc := ((insertBefore_isOk_iff hb).1 ⟨_, h⟩).1
    obtain ⟨p, ha⟩ := Option.isSome_iff_exists.1 (hb.positionOf?_isSome.2 hc)
    rw [insertBefore_eq hc ha] at h
    obtain ⟨code, hcode, hplaced⟩ := map_eq_ok.1 h
    exact ⟨p, ha, placed_made hb (hb.lt_size_of_positionOf? ha).le hcode hplaced⟩

/-- a choice between two ways out of guarded code, with the cleanup and the exit behind it -/
def guardedChoice : List Call := [
  .label "try", .emit (.loadInt32 0), .switch ["a", "b"], .label "a", .jump .leave "exit", .label "b",
  .jump .leave "exit", .label "cleanup", .emit { opcode := .endfinally }, .label "exit",
  .region ⟨0x0002, "try", "cleanup", "cleanup", some "exit", none⟩]

/-- its exit is the instruction that it is placed in front of, so it cannot be placed at the end -/
theorem written_placed_guardedChoice :
    let b := ((Body.empty 1).push { opcode := .ret }).1
    b.Coherent ∧ (¬ ∃ placed, (written guardedChoice).appendTo b = .ok placed) ∧
      ∃ b' new p, (written guardedChoice).insertBefore b ⟨1, 0⟩ = .ok (b', new) ∧ b.positionOf? ⟨1, 0⟩ = some p ∧
        Placed guardedChoice b p (some ⟨1, 0⟩) b' new := by
  intro b
  have hb : b.Coherent := (Body.Reachable.push (.empty 1) _ (by simp [Instruction.targets])).wellFormed.toCoherent
  obtain ⟨happend, -, -, hanchor⟩ := written_placed guardedChoice b hb
  obtain ⟨hinsert, hplaced, -⟩ := hanchor ⟨1, 0⟩
  have hdefined : ∀ label ∈ targets guardedChoice ++ ends guardedChoice, Defined guardedChoice label := by
    unfold Defined
    decide
  obtain ⟨⟨b', new⟩, hok⟩ := hinsert.2 ⟨rfl, hdefined⟩
  obtain ⟨p, hp, hmade⟩ := hplaced b' new hok
  refine ⟨hb, fun hok => ?_, b', new, p, hok, hp, hmade⟩
  obtain ⟨n, hn, hlt⟩ := precedes_iff.1 ((happend.1 hok).1 "exit" (by decide))
  have hlookup : (written guardedChoice).labels.lookup "exit" = some 5 := by decide
  obtain rfl : n = 5 := hn.unique (lookup_written.1 hlookup)
  exact absurd hlt (by decide)

end Draft

end CilGraft
