import DampedLeastSquares.Toml.Parser

/-!
# Values in a document

Reading a document puts values into lists and tables, moves tables from one place to another, and
forgets how they came to be, but the values inside that are no lists and no tables are what they
were: texts, and what runs of characters stand for. So what is known of these is known of every
value in every document, however it is nested.

The property is carried through each reader on its own, and through each way in which a table under
construction grows.
-/

namespace DampedLeastSquares.Toml

variable {p : Value → Prop}

/-- All values inside that are no lists and no tables have a property. -/
inductive Value.Each (p : Value → Prop) : Value → Prop
  /-- The value itself has it. -/
  | leaf {v : Value} (h : p v) : Each p v
  /-- The items of a list have it inside. -/
  | array {items : List Value} (h : ∀ v ∈ items, Each p v) : Each p (.array items)
  /-- The values of a table have it inside. -/
  | table {entries : Entries} (h : ∀ entry ∈ entries, Each p entry.2) : Each p (.table entries)

/-- All values inside a node under construction that are no lists and no tables have a property. -/
inductive Node.Each (p : Value → Prop) : Node → Prop
  /-- A value has it inside. -/
  | value {v : Value} (h : v.Each p) : Each p (.value v)
  /-- The nodes of a table have it inside. -/
  | table {origin : Origin} {nodes : Nodes} (h : ∀ entry ∈ nodes, Each p entry.2) :
    Each p (.table origin nodes)
  /-- The nodes of all tables in a list have it inside. -/
  | tables {last : Nodes} {earlier : List Nodes} (hlast : ∀ entry ∈ last, Each p entry.2)
    (hearlier : ∀ nodes ∈ earlier, ∀ entry ∈ nodes, Each p entry.2) : Each p (.tables last earlier)

/-- All nodes have a property inside. -/
def Nodes.Each (p : Value → Prop) (nodes : Nodes) : Prop := ∀ entry ∈ nodes, entry.2.Each p

theorem mem_of_lookup {α : Type} {entries : List (List Char × α)} {key : List Char} {a : α}
    (h : entries.lookup key = some a) : ∃ k, (k, a) ∈ entries := by
  induction entries with
  | nil => exact nomatch h
  | cons entry entries ih =>
    rw [List.lookup_cons] at h
    split at h
    · exact ⟨entry.1, Option.some.inj h ▸ List.mem_cons_self⟩
    · obtain ⟨k, hk⟩ := ih h
      exact ⟨k, List.mem_cons_of_mem _ hk⟩

/-! ## Tables that grow -/

namespace Nodes

variable {nodes nodes' : Nodes} {key : List Char} {path : List (List Char)} {node : Node}

theorem each_nil : Nodes.Each p [] := nofun

theorem Each.lookup (h : nodes.Each p) (hlookup : nodes.lookup key = some node) : node.Each p := by
  obtain ⟨k, hk⟩ := mem_of_lookup hlookup
  exact h _ hk

theorem Each.put (h : nodes.Each p) (hnode : node.Each p) : (nodes.put key node).Each p := by
  induction nodes with
  | nil => exact List.forall_mem_singleton.mpr hnode
  | cons entry nodes ih =>
    obtain ⟨hentry, hnodes⟩ := List.forall_mem_cons.mp h
    rw [Nodes.put]
    split
    · exact List.forall_mem_cons.mpr ⟨hnode, hnodes⟩
    · exact List.forall_mem_cons.mpr ⟨hentry, ih hnodes⟩

theorem Each.within {change : Nodes → Option Nodes}
    (hchange : ∀ nodes nodes' : Nodes, nodes.Each p → change nodes = some nodes' → nodes'.Each p)
    (h : nodes.Each p) (hnodes : nodes.within change path = some nodes') : nodes'.Each p := by
  induction path generalizing nodes nodes' with
  | nil => exact hchange _ _ h hnodes
  | cons key path ih =>
    rw [Nodes.within] at hnodes
    split at hnodes
    · obtain ⟨inner, hinner, hnodes⟩ := Option.bind_eq_some_iff.mp hnodes
      exact Option.some.inj hnodes ▸ h.put (.table (ih each_nil hinner))
    next hlookup =>
      cases h.lookup hlookup with
      | table hold =>
        obtain ⟨inner, hinner, hnodes⟩ := Option.bind_eq_some_iff.mp hnodes
        exact Option.some.inj hnodes ▸ h.put (.table (ih hold hinner))
    next hlookup =>
      cases h.lookup hlookup with
      | tables hold hearlier =>
        obtain ⟨last, hlast, hnodes⟩ := Option.bind_eq_some_iff.mp hnodes
        exact Option.some.inj hnodes ▸ h.put (.tables (ih hold hlast) hearlier)
    · exact nomatch hnodes

theorem Each.define {v : Value} (h : nodes.Each p) (hv : v.Each p)
    (hnodes : nodes.define path v = some nodes') : nodes'.Each p := by
  induction path generalizing nodes nodes' with
  | nil => exact nomatch hnodes
  | cons key path ih =>
    cases path with
    | nil =>
      rw [Nodes.define] at hnodes
      split at hnodes
      · exact Option.some.inj hnodes ▸ h.put (.value hv)
      · exact nomatch hnodes
    | cons next path =>
      rw [Nodes.define] at hnodes
      split at hnodes
      · obtain ⟨inner, hinner, hnodes⟩ := Option.bind_eq_some_iff.mp hnodes
        exact Option.some.inj hnodes ▸ h.put (.table (ih each_nil hinner))
      · exact nomatch hnodes
      next hlookup =>
        cases h.lookup hlookup with
        | table hold =>
          obtain ⟨inner, hinner, hnodes⟩ := Option.bind_eq_some_iff.mp hnodes
          exact Option.some.inj hnodes ▸ h.put (.table (ih hold hinner))
      next hlookup =>
        cases h.lookup hlookup with
        | tables hold hearlier =>
          split at hnodes
          · exact nomatch hnodes
          · obtain ⟨last, hlast, hnodes⟩ := Option.bind_eq_some_iff.mp hnodes
            exact Option.some.inj hnodes ▸ h.put (.tables (ih hold hlast) hearlier)
      · exact nomatch hnodes

theorem Each.openTable (h : nodes.Each p) (hnodes : nodes.openTable key = some nodes') :
    nodes'.Each p := by
  rw [Nodes.openTable] at hnodes
  split at hnodes
  · exact Option.some.inj hnodes ▸ h.put (.table each_nil)
  next hlookup =>
    cases h.lookup hlookup with
    | table hold => exact Option.some.inj hnodes ▸ h.put (.table hold)
  · exact nomatch hnodes

theorem Each.openListed (h : nodes.Each p) (hnodes : nodes.openListed key = some nodes') :
    nodes'.Each p := by
  rw [Nodes.openListed] at hnodes
  split at hnodes
  · exact Option.some.inj hnodes ▸ h.put (.tables each_nil nofun)
  next hlookup =>
    cases h.lookup hlookup with
    | tables hold hearlier =>
      exact Option.some.inj hnodes ▸
        h.put (.tables each_nil (List.forall_mem_cons.mpr ⟨hold, hearlier⟩))
  · exact nomatch hnodes

end Nodes

theorem Nodes.Each.add {draft draft' : Draft} {statement : Statement} (h : draft.nodes.Each p)
    (hstatement : ∀ path v, statement = .define path v → v.Each p)
    (hdraft : draft.add statement = some draft') : draft'.nodes.Each p := by
  cases statement with
  | define path v =>
    obtain ⟨nodes, hnodes, hdraft⟩ := Option.bind_eq_some_iff.mp hdraft
    rw [← Option.some.inj hdraft]
    exact h.within (fun _ _ hold ↦ hold.define (hstatement path v rfl)) hnodes
  | table path =>
    obtain ⟨key, -, hdraft⟩ := Option.bind_eq_some_iff.mp hdraft
    obtain ⟨nodes, hnodes, hdraft⟩ := Option.bind_eq_some_iff.mp hdraft
    rw [← Option.some.inj hdraft]
    exact h.within (fun _ _ hold ↦ hold.openTable) hnodes
  | listed path =>
    obtain ⟨key, -, hdraft⟩ := Option.bind_eq_some_iff.mp hdraft
    obtain ⟨nodes, hnodes, hdraft⟩ := Option.bind_eq_some_iff.mp hdraft
    rw [← Option.some.inj hdraft]
    exact h.within (fun _ _ hold ↦ hold.openListed) hnodes

/-! ## Finished tables -/

theorem each_entriesToValues {nodes : Nodes} (h : ∀ entry ∈ nodes, entry.2.toValue.Each p) :
    ∀ entry ∈ entriesToValues nodes, entry.2.Each p := by
  induction nodes with
  | nil => exact nofun
  | cons entry nodes ih =>
    obtain ⟨hentry, hnodes⟩ := List.forall_mem_cons.mp h
    rw [entriesToValues]
    exact List.forall_mem_cons.mpr ⟨hentry, ih hnodes⟩

theorem each_listedToValues {earlier : List Nodes}
    (h : ∀ nodes ∈ earlier, ∀ entry ∈ nodes, entry.2.toValue.Each p) :
    ∀ v ∈ listedToValues earlier, v.Each p := by
  induction earlier with
  | nil => exact nofun
  | cons nodes earlier ih =>
    obtain ⟨hnodes, hearlier⟩ := List.forall_mem_cons.mp h
    rw [listedToValues]
    exact List.forall_mem_cons.mpr ⟨.table (each_entriesToValues hnodes), ih hearlier⟩

theorem Node.Each.toValue {node : Node} (h : node.Each p) : node.toValue.Each p := by
  induction h with
  | value h =>
    rw [Node.toValue]
    exact h
  | table h ih =>
    rw [Node.toValue]
    exact .table (each_entriesToValues ih)
  | tables hlast hearlier ihlast ihearlier =>
    rw [Node.toValue]
    refine .array fun v hv ↦ ?_
    rcases List.mem_cons.mp (List.mem_reverse.mp hv) with rfl | hv
    · exact .table (each_entriesToValues ihlast)
    · exact each_listedToValues ihearlier v hv

theorem Nodes.Each.toValues {nodes : Nodes} (h : nodes.Each p) :
    ∀ entry ∈ entriesToValues nodes, entry.2.Each p :=
  each_entriesToValues fun entry hentry ↦ (h entry hentry).toValue

theorem Nodes.Each.defineAll {definitions : List (List (List Char) × Value)} {nodes nodes' : Nodes}
    (hdefinitions : ∀ definition ∈ definitions, definition.2.Each p) (h : nodes.Each p)
    (hnodes : definitions.foldlM (fun (nodes : Nodes) (path, value) ↦ nodes.define path value)
      nodes = some nodes') : nodes'.Each p := by
  induction definitions generalizing nodes with
  | nil => exact Option.some.inj hnodes ▸ h
  | cons definition definitions ih =>
    obtain ⟨hdefinition, hdefinitions⟩ := List.forall_mem_cons.mp hdefinitions
    rw [List.foldlM_cons] at hnodes
    obtain ⟨next, hnext, hnodes⟩ := Option.bind_eq_some_iff.mp hnodes
    exact ih hdefinitions (h.define hdefinition hnext) hnodes

theorem each_inlineTable? {definitions : List (List (List Char) × Value)} {v : Value}
    (h : ∀ definition ∈ definitions, definition.2.Each p) (hv : inlineTable? definitions = some v) :
    v.Each p := by
  obtain ⟨nodes, hnodes, hv⟩ := Option.bind_eq_some_iff.mp hv
  exact Option.some.inj hv ▸ .table (Nodes.each_nil.defineAll h hnodes).toValues

/-! ## Readers -/

theorem forall_mem_items? {α : Type} {q : α → Prop} {close : Char}
    {item? : List Char → Option (α × List Char)}
    (hitem : ∀ cs a rest, item? cs = some (a, rest) → q a) {fuel : Nat} {cs rest : List Char}
    {items : List α} (h : items? close item? fuel cs = some (items, rest)) : ∀ a ∈ items, q a := by
  induction fuel generalizing cs items rest with
  | zero => exact nomatch h
  | succ fuel ih =>
    obtain ⟨start, -, h⟩ := Option.bind_eq_some_iff.mp h
    split at h
    · exact nomatch h
    · split at h
      · obtain ⟨rfl, -⟩ := Prod.mk.inj (Option.some.inj h)
        exact nofun
      · obtain ⟨⟨a, behind⟩, ha, h⟩ := Option.bind_eq_some_iff.mp h
        obtain ⟨next, -, h⟩ := Option.bind_eq_some_iff.mp h
        split at h
        · exact nomatch h
        · split at h
          · obtain ⟨rfl, -⟩ := Prod.mk.inj (Option.some.inj h)
            exact List.forall_mem_singleton.mpr (hitem _ _ _ ha)
          · split at h
            · obtain ⟨⟨others, last⟩, hothers, h⟩ := Option.bind_eq_some_iff.mp h
              obtain ⟨rfl, -⟩ := Prod.mk.inj (Option.some.inj h)
              exact List.forall_mem_cons.mpr ⟨hitem _ _ _ ha, ih hothers⟩
            · exact nomatch h

theorem each_definition? {skip? : List Char → Option (List Char)}
    {value? : List Char → Option (Value × List Char)}
    (hvalue : ∀ cs v rest, value? cs = some (v, rest) → v.Each p) (cs : List Char)
    (definition : List (List Char) × Value) (rest : List Char)
    (h : definition? skip? value? cs = some (definition, rest)) : definition.2.Each p := by
  obtain ⟨⟨path, behind⟩, -, h⟩ := Option.bind_eq_some_iff.mp h
  obtain ⟨sign, -, h⟩ := Option.bind_eq_some_iff.mp h
  split at h
  · obtain ⟨start, -, h⟩ := Option.bind_eq_some_iff.mp h
    obtain ⟨⟨v, last⟩, hv, h⟩ := Option.bind_eq_some_iff.mp h
    obtain ⟨rfl, -⟩ := Prod.mk.inj (Option.some.inj h)
    exact hvalue _ _ _ hv
  · exact nomatch h

section

variable (htext : ∀ cs, p (.text cs)) (hliteral : ∀ cs v, literal? cs = some v → p v)

include htext hliteral

theorem each_flat {cs rest : List Char} {v : Value} (h : (match quoted? cs with
    | some (text, rest) => some (Value.text text, rest)
    | none => (literal? (cutLiteral cs).1).map fun v ↦ (v, (cutLiteral cs).2)) = some (v, rest)) :
    v.Each p := by
  split at h
  · obtain ⟨rfl, -⟩ := Prod.mk.inj (Option.some.inj h)
    exact .leaf (htext _)
  · obtain ⟨w, hw, h⟩ := Option.map_eq_some_iff.mp h
    obtain ⟨rfl, -⟩ := Prod.mk.inj h
    exact .leaf (hliteral _ _ hw)

/-- A value has inside what texts and literals have. The induction is on how deep it may nest. -/
theorem each_valueWithin? (depth : Nat) (cs : List Char) (v : Value) (rest : List Char)
    (h : valueWithin? depth cs = some (v, rest)) : v.Each p := by
  induction depth generalizing cs v rest with
  | zero =>
    rw [valueWithin?.eq_def] at h
    split at h
    · exact nomatch h
    · exact nomatch h
    · exact each_flat htext hliteral h
  | succ depth ih =>
    rw [valueWithin?.eq_def] at h
    split at h
    · obtain ⟨⟨items, behind⟩, hitems, h⟩ := Option.bind_eq_some_iff.mp h
      obtain ⟨rfl, -⟩ := Prod.mk.inj (Option.some.inj h)
      exact .array (forall_mem_items? ih hitems)
    · obtain ⟨⟨definitions, behind⟩, hdefinitions, h⟩ := Option.bind_eq_some_iff.mp h
      obtain ⟨table, htable, h⟩ := Option.bind_eq_some_iff.mp h
      obtain ⟨rfl, -⟩ := Prod.mk.inj (Option.some.inj h)
      exact each_inlineTable? (forall_mem_items? (each_definition? ih) hdefinitions) htable
    · exact each_flat htext hliteral h

theorem each_statement? {cs : List Char} {path : List (List Char)} {v : Value} {rest : List Char}
    (h : statement? cs = some (.define path v, rest)) : v.Each p := by
  rw [statement?.eq_def] at h
  split at h
  · obtain ⟨⟨path, behind⟩, -, h⟩ := Option.bind_eq_some_iff.mp h
    dsimp only at h
    split at h <;> exact nomatch h
  · obtain ⟨⟨path, behind⟩, -, h⟩ := Option.bind_eq_some_iff.mp h
    dsimp only at h
    split at h <;> exact nomatch h
  · obtain ⟨⟨definition, behind⟩, hdefinition, h⟩ := Option.bind_eq_some_iff.mp h
    obtain ⟨⟨rfl, rfl⟩, -⟩ := Prod.mk.inj (Option.some.inj h)
    exact each_definition? (each_valueWithin? htext hliteral _) _ _ _ hdefinition

theorem each_statements? {fuel : Nat} {draft draft' : Draft} {cs : List Char}
    (h : draft.nodes.Each p) (hdraft : statements? fuel draft cs = some draft') :
    draft'.nodes.Each p := by
  induction fuel generalizing draft cs with
  | zero => exact nomatch hdraft
  | succ fuel ih =>
    obtain ⟨start, -, hdraft⟩ := Option.bind_eq_some_iff.mp hdraft
    split at hdraft
    · exact Option.some.inj hdraft ▸ h
    · obtain ⟨⟨statement, behind⟩, hstatement, hdraft⟩ := Option.bind_eq_some_iff.mp hdraft
      obtain ⟨next, hnext, hdraft⟩ := Option.bind_eq_some_iff.mp hdraft
      obtain ⟨rest, -, hdraft⟩ := Option.bind_eq_some_iff.mp hdraft
      refine ih (h.add (fun path v hdefine ↦ ?_) hnext) hdraft
      exact each_statement? htext hliteral (hdefine ▸ hstatement)

/-- **What texts and literals have is had by every value in a document**, however deep inside it is,
unless it is a list or a table itself. -/
theorem each_parse? {text : List Char} {document : Entries} (h : parse? text = some document) :
    ∀ entry ∈ document, entry.2.Each p := by
  obtain ⟨draft, hdraft, rfl⟩ := Option.map_eq_some_iff.mp h
  exact (each_statements? htext hliteral Nodes.each_nil hdraft).toValues

end

/-! ## Whole numbers -/

/-- A value that is no list, no table, and no whole number of more than 128 bits. -/
def Value.IsSmall : Value → Prop
  | .integer n => leastInteger ≤ n ∧ n ≤ greatestInteger
  | .array _ | .table _ => False
  | _ => True

theorem isSmall_integer? {cs : List Char} {n : Int} (h : integer? cs = some n) :
    (Value.integer n).IsSmall := by
  obtain ⟨m, -, hm⟩ := Option.bind_eq_some_iff.mp h
  split at hm
  next hbounds => exact Option.some.inj hm ▸ hbounds
  · exact nomatch hm

theorem isSmall_moment? {cs : List Char} {v : Value} (h : moment? cs = some v) : v.IsSmall := by
  rw [moment?] at h
  split at h
  · exact Option.some.inj h ▸ trivial
  · split at h
    · split at h
      · split at h
        · exact Option.some.inj h ▸ trivial
        · exact nomatch h
      · exact nomatch h
    · exact nomatch h
  · split at h
    · exact Option.some.inj h ▸ trivial
    · exact nomatch h

theorem isSmall_literal? {cs : List Char} {v : Value} (h : literal? cs = some v) : v.IsSmall := by
  rw [literal?] at h
  split at h
  · exact Option.some.inj h ▸ trivial
  · split at h
    · exact Option.some.inj h ▸ trivial
    · split at h
      next n hn => exact Option.some.inj h ▸ isSmall_integer? hn
      · split at h
        · exact Option.some.inj h ▸ trivial
        · exact isSmall_moment? h

/-- **Every whole number in a document fits into 128 bits.** -/
theorem each_isSmall {text : List Char} {document : Entries} (h : parse? text = some document) :
    ∀ entry ∈ document, entry.2.Each Value.IsSmall :=
  each_parse? (fun _ ↦ trivial) (fun _ _ ↦ isSmall_literal?) h

end DampedLeastSquares.Toml
