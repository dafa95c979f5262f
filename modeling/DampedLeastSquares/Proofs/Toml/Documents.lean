import DampedLeastSquares.Proofs.Toml.Literals
import DampedLeastSquares.Toml.Parser

/-!
# Documents read back

A document in sections has one line for the name of each section and one for each setting in it,
and a blank line between sections. Reading goes along the lines. A setting's line adds the value
that its right side denotes to the table of the section that was named last, because no other line
of the section gives the same key. So the document is read as a table with one table per section.
-/

namespace DampedLeastSquares.Toml

/-! ## Blanks and line feeds -/

/-- A character that is neither skipped nor opens what is skipped. -/
def isVisible (c : Char) : Bool := !(c = ' ' || c = '\t' || c = '\n' || c = '#')

theorem isVisible_of_test {p : Char → Bool} {c : Char} (hc : p c = true) (hspace : p ' ' = false)
    (htab : p '\t' = false) (hfeed : p '\n' = false) (hcomment : p '#' = false) :
    isVisible c = true := by
  rw [isVisible, decide_eq_false (ne_of_test hc hspace), decide_eq_false (ne_of_test hc htab),
    decide_eq_false (ne_of_test hc hfeed), decide_eq_false (ne_of_test hc hcomment)]
  rfl

theorem skipBlanks_of_visible {c : Char} (h : isVisible c = true) (cs : List Char) :
    skipBlanks (c :: cs) = c :: cs := by
  refine List.dropWhile_cons_of_neg ?_
  rw [Bool.not_eq_true, Bool.or_eq_false_iff, decide_eq_false_iff_not, decide_eq_false_iff_not]
  exact ⟨ne_of_test h rfl, ne_of_test h rfl⟩

theorem skipLines?_of_visible {c : Char} (h : isVisible c = true) (fuel : Nat) (cs : List Char) :
    skipLines? (fuel + 1) (c :: cs) = some (c :: cs) := by
  have hcomment : skipComment? (c :: cs) = some (c :: cs) := by
    rw [skipComment?]
    intro rest heq
    exact ne_of_test h rfl (List.cons.inj heq).1
  rw [skipLines?, skipBlanks_of_visible h, hcomment, Option.bind_eq_bind, Option.bind_some]
  split
  · rename_i heq
    exact absurd (List.cons.inj heq).1 (ne_of_test h rfl)
  · rfl

theorem skipAllLines?_of_visible {c : Char} (h : isVisible c = true) (cs : List Char) :
    skipAllLines? (c :: cs) = some (c :: cs) :=
  skipLines?_of_visible h _ cs

theorem skipAllLines?_newline {c : Char} (h : isVisible c = true) (cs : List Char) :
    skipAllLines? ('\n' :: c :: cs) = some (c :: cs) :=
  skipLines?_of_visible h _ cs

/-! ## Keys -/

/-- A key that needs no quotes. -/
structure IsBareKey (key : List Char) : Prop where
  /-- There are some characters. -/
  ne_nil : key ≠ []
  /-- The characters need no quotes. -/
  bare : ∀ c ∈ key, isBareKeyChar c = true

theorem isBareKey_of_all {key : List Char} (hne : key.isEmpty = false)
    (hbare : key.all isBareKeyChar = true) : IsBareKey key :=
  ⟨List.isEmpty_eq_false_iff.mp hne, List.all_eq_true.mp hbare⟩

theorem IsBareKey.exists_cons {key : List Char} (h : IsBareKey key) :
    ∃ c tail, key = c :: tail ∧ isBareKeyChar c = true := by
  obtain ⟨c, tail, rfl⟩ := List.exists_cons_of_ne_nil h.ne_nil
  exact ⟨c, tail, rfl, h.bare c List.mem_cons_self⟩

theorem IsBareKey.noReturn {key : List Char} (h : IsBareKey key) : '\r' ∉ key :=
  fun hmem ↦ absurd (h.bare _ hmem) Bool.false_ne_true

theorem isVisible_of_isBareKeyChar {c : Char} (h : isBareKeyChar c = true) : isVisible c = true :=
  isVisible_of_test h rfl rfl rfl rfl

theorem simpleKey?_append {key : List Char} (h : IsBareKey key) {d : Char}
    (hd : isBareKeyChar d = false) (rest : List Char) :
    simpleKey? (key ++ d :: rest) = some (key, d :: rest) := by
  obtain ⟨c, tail, hcons, hc⟩ := h.exists_cons
  have hd' : ¬isBareKeyChar d = true := ne_true_of_eq_false hd
  have hkey : (key ++ d :: rest).takeWhile isBareKeyChar = key := by
    rw [List.takeWhile_append_of_pos h.bare, List.takeWhile_cons_of_neg hd', List.append_nil]
  have hrest : (key ++ d :: rest).dropWhile isBareKeyChar = d :: rest := by
    rw [List.dropWhile_append_of_pos h.bare, List.dropWhile_cons_of_neg hd']
  rw [simpleKey?]
  · simp only [hkey, hrest, List.isEmpty_eq_false_iff.mpr h.ne_nil]
    rfl
  · intro tail' heq
    rw [hcons] at heq
    exact ne_of_test hc rfl (List.cons.inj heq).1
  · intro tail' heq
    rw [hcons] at heq
    exact ne_of_test hc rfl (List.cons.inj heq).1

theorem path?_append {key : List Char} (h : IsBareKey key) {d e : Char}
    (hd : isBareKeyChar d = false) {rest rest' : List Char}
    (hblanks : skipBlanks (d :: rest) = e :: rest') (he : e ≠ '.') :
    path? (key ++ d :: rest) = some ([key], e :: rest') := by
  obtain ⟨c, tail, hcons, hc⟩ := h.exists_cons
  have hstart : skipBlanks (key ++ d :: rest) = key ++ d :: rest := by
    rw [hcons]
    exact skipBlanks_of_visible (isVisible_of_isBareKeyChar hc) _
  rw [path?, nestingLimit, keys?, hstart, simpleKey?_append h hd, Option.bind_eq_bind,
    Option.bind_some]
  simp only [hblanks]
  split
  · rename_i heq
    exact absurd (List.cons.inj heq).1 he
  · rfl

/-! ## Values -/

/-- The right side of a line: characters, and the value that they are read as. -/
structure Reads (cs : List Char) (v : Value) : Prop where
  /-- There are some characters, and no blanks before them. -/
  visible : ∃ c tail, cs = c :: tail ∧ isVisible c = true
  /-- No character could be taken for the end of a line. -/
  noReturn : '\r' ∉ cs
  /-- Up to the end of the line they are the value. -/
  value : ∀ rest, value? (cs ++ '\n' :: rest) = some (v, '\n' :: rest)

theorem isVisible_of_isPlain {c : Char} (h : isPlain c = true) : isVisible c = true :=
  isVisible_of_test h rfl rfl rfl rfl

/-- No literal ends before its line if no character of it ends one. -/
theorem cutLiteral_append {cs : List Char} (h : ∀ c ∈ cs, endsLiteral c = false)
    (rest : List Char) : cutLiteral (cs ++ '\n' :: rest) = (cs, '\n' :: rest) := by
  have hinside : ∀ c ∈ cs, (!endsLiteral c) = true := fun c hc ↦ by rw [h c hc]; rfl
  rw [cutLiteral, List.takeWhile_append_of_pos hinside, List.dropWhile_append_of_pos hinside,
    List.takeWhile_cons_of_neg (by decide), List.dropWhile_cons_of_neg (by decide), List.append_nil]
  rfl

theorem endsLiteral_of_isPlain {c : Char} (h : isPlain c = true) : endsLiteral c = false := by
  simp only [endsLiteral, decide_eq_false (ne_of_test h (d := ' ') rfl),
    decide_eq_false (ne_of_test h (d := '\t') rfl), decide_eq_false (ne_of_test h (d := '\n') rfl),
    decide_eq_false (ne_of_test h (d := ',') rfl), decide_eq_false (ne_of_test h (d := ']') rfl),
    decide_eq_false (ne_of_test h (d := '\x7d') rfl),
    decide_eq_false (ne_of_test h (d := '#') rfl), Bool.or_false]

theorem Denotes.reads {cs : List Char} {v : Value} (h : Denotes cs v) : Reads cs v := by
  obtain ⟨c, tail, rfl⟩ := List.exists_cons_of_ne_nil h.ne_nil
  have hc : isPlain c = true := h.plain c List.mem_cons_self
  refine ⟨⟨c, tail, rfl, isVisible_of_isPlain hc⟩, fun hmem ↦ ?_, fun rest ↦ ?_⟩
  · exact absurd (h.plain _ hmem) nofun
  have hother : ∀ d more, isPlain d = false → c :: tail ++ '\n' :: rest ≠ d :: more :=
    fun d more hd heq ↦ ne_of_test hc hd (List.cons.inj heq).1
  have hquoted : quoted? (c :: tail ++ '\n' :: rest) = none := by
    rw [quoted?]
    · exact fun more ↦ hother '"' _ rfl
    · exact fun more ↦ hother '\'' _ rfl
    · exact fun more ↦ hother '"' _ rfl
    · exact fun more ↦ hother '\'' _ rfl
  rw [value?, valueWithin?]
  · rw [hquoted, cutLiteral_append fun d hd ↦ endsLiteral_of_isPlain (h.plain d hd)]
    simp only [h.literal, Option.map_some]
  · exact fun more ↦ hother '[' _ rfl
  · exact fun more ↦ hother '\x7b' _ rfl

/-! ## Texts between quotes -/

theorem isForbidden_of_isPlain {c : Char} (h : isPlain c = true) : isForbidden c = false := by
  have hbounds : 0x20 ≤ c.toNat ∧ c.toNat < 0x7f := by
    simp only [isPlain, Char.isAlphanum, Char.isAlpha, Char.isUpper, Char.isLower, Char.isDigit,
      Bool.or_eq_true, Bool.and_eq_true, decide_eq_true_iff, UInt32.le_iff_toNat_le, ge_iff_le] at h
    obtain (((hc | hc) | hc) | rfl) | rfl := h
    · exact ⟨le_trans (by decide) hc.1, lt_of_le_of_lt hc.2 (by decide)⟩
    · exact ⟨le_trans (by decide) hc.1, lt_of_le_of_lt hc.2 (by decide)⟩
    · exact ⟨le_trans (by decide) hc.1, lt_of_le_of_lt hc.2 (by decide)⟩
    · decide
    · decide
  rw [isForbidden, Bool.or_eq_false_iff, Bool.and_eq_false_iff, decide_eq_false_iff_not,
    decide_eq_false_iff_not]
  omega

theorem basicLine_append {cs : List Char} (h : ∀ c ∈ cs, isPlain c = true) (fuel : Nat)
    (hfuel : cs.length < fuel) (rest : List Char) :
    basicLine fuel (cs ++ '"' :: rest) = some (cs, rest) := by
  induction cs generalizing fuel with
  | nil =>
    cases fuel with
    | zero => exact absurd hfuel (Nat.not_lt_zero _)
    | succ fuel => rfl
  | cons c cs ih =>
    obtain ⟨hc, hcs⟩ := List.forall_mem_cons.mp h
    cases fuel with
    | zero => exact absurd hfuel (Nat.not_lt_zero _)
    | succ fuel =>
      rw [List.cons_append, basicLine, if_neg (ne_of_test hc rfl), if_neg (ne_of_test hc rfl),
        if_neg (ne_true_of_eq_false (isForbidden_of_isPlain hc)),
        ih hcs fuel (Nat.lt_of_succ_lt_succ hfuel)]
      rfl

theorem reads_quoted {cs : List Char} (hne : cs ≠ []) (h : ∀ c ∈ cs, isPlain c = true) :
    Reads ('"' :: (cs ++ ['"'])) (.text cs) := by
  obtain ⟨c, tail, rfl⟩ := List.exists_cons_of_ne_nil hne
  have hc : isPlain c = true := h c List.mem_cons_self
  refine ⟨⟨'"', _, rfl, rfl⟩, fun hmem ↦ ?_, fun rest ↦ ?_⟩
  · obtain hmem | hmem := List.mem_append.mp (List.mem_of_ne_of_mem (by decide) hmem)
    · exact absurd (h _ hmem) nofun
    · exact absurd hmem (by decide)
  have happend : '"' :: (c :: tail ++ ['"']) ++ '\n' :: rest =
      '"' :: (c :: tail ++ '"' :: '\n' :: rest) :=
    congrArg ('"' :: ·) (List.append_assoc (c :: tail) ['"'] ('\n' :: rest))
  have hquoted : quoted? ('"' :: (c :: tail ++ '"' :: '\n' :: rest)) =
      some (c :: tail, '\n' :: rest) := by
    rw [quoted?]
    · refine basicLine_append h _ ?_ _
      simp only [List.length_cons, List.length_append]
      omega
    · rintro more heq
      exact ne_of_test hc rfl (List.cons.inj heq).1
  rw [happend, value?, valueWithin?]
  · rw [hquoted]
  · exact fun more heq ↦ absurd (List.cons.inj heq).1 (by decide)
  · exact fun more heq ↦ absurd (List.cons.inj heq).1 (by decide)

/-! ## Lines -/

/-- A line that gives a key its value. -/
structure Setting where
  /-- The key. -/
  key : List Char
  /-- The right side. -/
  written : List Char
  /-- The value. -/
  value : Value
  /-- The key needs no quotes. -/
  isBareKey : IsBareKey key
  /-- The right side is read as the value. -/
  reads : Reads written value

/-- The characters of a line. -/
def Setting.text (s : Setting) : List Char := s.key ++ ' ' :: '=' :: ' ' :: (s.written ++ ['\n'])

theorem Setting.statement?_append (s : Setting) (rest : List Char) :
    statement? (s.text ++ rest) = some (.define [s.key] s.value, '\n' :: rest) := by
  obtain ⟨c, tail, hcons, hc⟩ := s.isBareKey.exists_cons
  obtain ⟨d, tail', hcons', hd⟩ := s.reads.visible
  have happend : s.text ++ rest = s.key ++ ' ' :: '=' :: ' ' :: (s.written ++ '\n' :: rest) := by
    rw [Setting.text, List.append_assoc, List.cons_append, List.cons_append, List.cons_append,
      List.append_assoc, List.singleton_append]
  have hpath : path? (s.key ++ ' ' :: '=' :: ' ' :: (s.written ++ '\n' :: rest)) =
      some ([s.key], '=' :: ' ' :: (s.written ++ '\n' :: rest)) :=
    path?_append s.isBareKey rfl rfl (by decide)
  have hblanks : skipBlanks (' ' :: (s.written ++ '\n' :: rest)) = s.written ++ '\n' :: rest := by
    rw [hcons']
    exact skipBlanks_of_visible hd _
  have hequals : ∀ cs, skipBlanks ('=' :: cs) = '=' :: cs := fun cs ↦ skipBlanks_of_visible rfl cs
  have hother : ∀ more, s.text ++ rest ≠ '[' :: more := by
    intro more heq
    rw [Setting.text, hcons] at heq
    exact ne_of_test hc rfl (List.cons.inj heq).1
  rw [statement?]
  · rw [happend, definition?, hpath]
    simp only [Option.bind_eq_bind, Option.bind_some, hequals, hblanks, s.reads.value]
  · exact fun more ↦ hother _
  · exact fun more ↦ hother _

/-- No character of a line could be taken for the end of another. -/
theorem Setting.noReturn (s : Setting) : '\r' ∉ s.text := by
  simp only [Setting.text, List.mem_append, List.mem_cons, List.not_mem_nil, or_false, not_or]
  exact ⟨s.isBareKey.noReturn, by decide, by decide, by decide, s.reads.noReturn, by decide⟩

theorem Setting.exists_cons (s : Setting) :
    ∃ c tail, s.text = c :: tail ∧ isVisible c = true := by
  obtain ⟨c, tail, hcons, hc⟩ := s.isBareKey.exists_cons
  rw [Setting.text, hcons]
  exact ⟨c, _, rfl, isVisible_of_isBareKeyChar hc⟩

theorem statements?_step {draft draft' : Draft} {s : Statement} {cs start rest : List Char}
    {c : Char} {fuel : Nat} (hskip : skipAllLines? cs = some (c :: start))
    (hstatement : statement? (c :: start) = some (s, '\n' :: rest))
    (hadd : draft.add s = some draft') (hfuel : cs.length < fuel)
    (hrest : rest.length < cs.length) :
    ∃ fuel', rest.length < fuel' ∧ statements? fuel draft cs = statements? fuel' draft' rest := by
  cases fuel with
  | zero => exact absurd hfuel (Nat.not_lt_zero _)
  | succ fuel =>
    refine ⟨fuel, by omega, ?_⟩
    have hend : endLine? ('\n' :: rest) = some rest := rfl
    rw [statements?, hskip]
    simp only [Option.bind_eq_bind, Option.bind_some, hstatement, hadd, hend]

/-! ## Tables under construction -/

theorem lookup_eq_none {α : Type} {entries : List (List Char × α)} {key : List Char}
    (h : key ∉ entries.map Prod.fst) : entries.lookup key = none := by
  refine List.lookup_eq_none_iff.mpr fun entry hentry ↦ bne_iff_ne.mpr ?_
  rintro rfl
  exact h (List.mem_map_of_mem hentry)

theorem lookup_append {α : Type} {entries : List (List Char × α)} {key : List Char}
    (h : key ∉ entries.map Prod.fst) (a : α) : (entries ++ [(key, a)]).lookup key = some a := by
  rw [List.lookup_append, lookup_eq_none h, Option.none_or, List.lookup_cons_self]

namespace Nodes

theorem put_append {before : Nodes} {key : List Char} (h : key ∉ before.map Prod.fst) (node : Node)
    (rest : Nodes) : (before ++ rest).put key node = before ++ rest.put key node := by
  induction before with
  | nil => rfl
  | cons entry before ih =>
    rw [List.map_cons, List.mem_cons, not_or] at h
    rw [List.cons_append, put, if_neg (Ne.symm h.1), ih h.2, List.cons_append]

theorem put_of_not_mem {nodes : Nodes} {key : List Char} (h : key ∉ nodes.map Prod.fst)
    (node : Node) : nodes.put key node = nodes ++ [(key, node)] := by
  rw [← List.append_nil nodes, put_append h, List.append_nil]
  rfl

theorem put_last {before : Nodes} {key : List Char} (h : key ∉ before.map Prod.fst)
    (node node' : Node) : (before ++ [(key, node)]).put key node' = before ++ [(key, node')] := by
  rw [put_append h, put, if_pos rfl]

end Nodes

/-- Tables by the names of their sections, the last of which is still to be filled. -/
def Draft.filling (before : Nodes) (name : List Char) (entries : Nodes) : Draft :=
  ⟨before ++ [(name, .table .header entries)], [name]⟩

theorem Draft.add_header {nodes : Nodes} {name : List Char} (h : name ∉ nodes.map Prod.fst)
    (place : List (List Char)) :
    (⟨nodes, place⟩ : Draft).add (.table [name]) = some (filling nodes name []) := by
  simp only [Draft.add, List.getLast?_singleton, List.dropLast_singleton, Option.bind_eq_bind,
    Option.bind_some, Nodes.within, Nodes.openTable, lookup_eq_none h, Nodes.put_of_not_mem h,
    filling]

theorem Draft.add_define {before entries : Nodes} {name key : List Char}
    (hname : name ∉ before.map Prod.fst) (hkey : key ∉ entries.map Prod.fst) (v : Value) :
    (filling before name entries).add (.define [key] v) =
      some (filling before name (entries ++ [(key, .value v)])) := by
  simp only [Draft.add, filling, Nodes.within, lookup_append hname, Nodes.define,
    lookup_eq_none hkey, Nodes.put_of_not_mem hkey, Nodes.put_last hname, Option.bind_eq_bind,
    Option.bind_some]

/-! ## Sections -/

/-- The node that a line becomes. -/
def Setting.node (s : Setting) : List Char × Node := (s.key, .value s.value)

theorem statements?_settings {before : Nodes} {name : List Char}
    (hname : name ∉ before.map Prod.fst) (settings : List Setting) (entries : Nodes)
    (hkeys : (entries.map Prod.fst ++ settings.map Setting.key).Nodup) (rest : List Char)
    (fuel : Nat) (hfuel : (settings.flatMap Setting.text ++ rest).length < fuel) :
    ∃ fuel', rest.length < fuel' ∧
      statements? fuel (.filling before name entries) (settings.flatMap Setting.text ++ rest) =
        statements? fuel' (.filling before name (entries ++ settings.map Setting.node)) rest := by
  induction settings generalizing entries fuel with
  | nil => exact ⟨fuel, hfuel, by rw [List.map_nil, List.append_nil]; rfl⟩
  | cons s settings ih =>
    obtain ⟨c, tail, hcons, hc⟩ := s.exists_cons
    rw [List.flatMap_cons, List.append_assoc] at hfuel ⊢
    have hkey : s.key ∉ entries.map Prod.fst := fun hmem ↦
      (List.nodup_append.mp hkeys).2.2 _ hmem _ List.mem_cons_self rfl
    have hkeys' : ((entries ++ [s.node]).map Prod.fst ++ settings.map Setting.key).Nodup := by
      rwa [List.map_append, List.append_assoc]
    have hskip := skipAllLines?_of_visible hc (tail ++ (settings.flatMap Setting.text ++ rest))
    have hstatement := s.statement?_append (settings.flatMap Setting.text ++ rest)
    rw [hcons] at hstatement hfuel ⊢
    obtain ⟨fuel₁, hfuel₁, hstep⟩ := statements?_step hskip hstatement
      (Draft.add_define hname hkey s.value) hfuel
      (by simp only [List.length_append, List.length_cons]; omega)
    obtain ⟨fuel₂, hfuel₂, hsettings⟩ := ih _ hkeys' fuel₁ hfuel₁
    refine ⟨fuel₂, hfuel₂, hstep.trans (hsettings.trans ?_)⟩
    rw [List.append_assoc]
    rfl

/-- Lines below a name. -/
structure Section where
  /-- The name. -/
  name : List Char
  /-- The lines. -/
  settings : List Setting
  /-- The name needs no quotes. -/
  isBareKey : IsBareKey name
  /-- No key has two values. -/
  nodup : (settings.map Setting.key).Nodup

namespace Section

/-- The characters of a section. -/
def text (t : Section) : List Char :=
  '[' :: (t.name ++ ']' :: '\n' :: t.settings.flatMap Setting.text)

/-- The node that a section becomes. -/
def node (t : Section) : List Char × Node := (t.name, .table .header (t.settings.map Setting.node))

/-- The entry that a section is read as. -/
def entry (t : Section) : List Char × Value :=
  (t.name, .table (t.settings.map fun s ↦ (s.key, s.value)))

theorem statement?_header (t : Section) (rest : List Char) :
    statement? ('[' :: (t.name ++ ']' :: '\n' :: rest)) = some (.table [t.name], '\n' :: rest) := by
  obtain ⟨c, tail, hcons, hc⟩ := t.isBareKey.exists_cons
  have hpath : path? (t.name ++ ']' :: '\n' :: rest) = some ([t.name], ']' :: '\n' :: rest) :=
    path?_append t.isBareKey rfl (skipBlanks_of_visible rfl _) (by decide)
  rw [statement?]
  · rw [hpath]
    rfl
  · intro more heq
    rw [hcons] at heq
    exact ne_of_test hc rfl (List.cons.inj heq).1

theorem noReturn (t : Section) : '\r' ∉ t.text := by
  simp only [Section.text, List.mem_append, List.mem_cons, not_or]
  refine ⟨by decide, t.isBareKey.noReturn, by decide, by decide, fun hmem ↦ ?_⟩
  obtain ⟨s, -, hs⟩ := List.mem_flatMap.mp hmem
  exact s.noReturn hs

end Section

theorem statements?_section (t : Section) {lead : List Char}
    (hlead : ∀ cs, skipAllLines? (lead ++ '[' :: cs) = some ('[' :: cs)) {nodes : Nodes}
    (hname : t.name ∉ nodes.map Prod.fst) (place : List (List Char)) (rest : List Char) (fuel : Nat)
    (hfuel : (lead ++ t.text ++ rest).length < fuel) :
    ∃ fuel', rest.length < fuel' ∧
      statements? fuel ⟨nodes, place⟩ (lead ++ t.text ++ rest) =
        statements? fuel' ⟨nodes ++ [t.node], [t.name]⟩ rest := by
  have happend : lead ++ t.text ++ rest =
      lead ++ '[' :: (t.name ++ ']' :: '\n' :: (t.settings.flatMap Setting.text ++ rest)) := by
    simp only [Section.text, List.append_assoc, List.cons_append]
  rw [happend] at hfuel ⊢
  obtain ⟨fuel₁, hfuel₁, hheader⟩ := statements?_step (hlead _) (t.statement?_header _)
    (Draft.add_header hname place) hfuel
    (by simp only [List.length_append, List.length_cons]; omega)
  obtain ⟨fuel₂, hfuel₂, hsettings⟩ :=
    statements?_settings hname t.settings [] t.nodup rest fuel₁ hfuel₁
  exact ⟨fuel₂, hfuel₂, hheader.trans hsettings⟩

/-! ## Documents -/

/-- The characters of a document: its sections, with blank lines between them. -/
def documentText : List Section → List Char
  | [] => []
  | t :: ts => t.text ++ ts.flatMap fun t ↦ '\n' :: t.text

theorem noReturn_documentText (ts : List Section) : '\r' ∉ documentText ts := by
  cases ts with
  | nil => exact List.not_mem_nil
  | cons t ts =>
    intro hmem
    obtain hmem | hmem := List.mem_append.mp hmem
    · exact t.noReturn hmem
    · obtain ⟨t, -, ht⟩ := List.mem_flatMap.mp hmem
      exact t.noReturn (List.mem_of_ne_of_mem (by decide) ht)

theorem statements?_sections (ts : List Section) (nodes : Nodes)
    (hnames : (nodes.map Prod.fst ++ ts.map Section.name).Nodup) (place : List (List Char))
    (fuel : Nat) (hfuel : (ts.flatMap fun t ↦ '\n' :: t.text).length < fuel) :
    ∃ place', statements? fuel ⟨nodes, place⟩ (ts.flatMap fun t ↦ '\n' :: t.text) =
      some ⟨nodes ++ ts.map Section.node, place'⟩ := by
  induction ts generalizing nodes place fuel with
  | nil =>
    cases fuel with
    | zero => exact absurd hfuel (Nat.not_lt_zero _)
    | succ fuel => exact ⟨place, by rw [List.map_nil, List.append_nil]; rfl⟩
  | cons t ts ih =>
    have hname : t.name ∉ nodes.map Prod.fst := fun hmem ↦
      (List.nodup_append.mp hnames).2.2 _ hmem _ List.mem_cons_self rfl
    have hnames' : ((nodes ++ [t.node]).map Prod.fst ++ ts.map Section.name).Nodup := by
      rwa [List.map_append, List.append_assoc]
    have hlead : ∀ cs, skipAllLines? (['\n'] ++ '[' :: cs) = some ('[' :: cs) :=
      skipAllLines?_newline rfl
    obtain ⟨fuel₁, hfuel₁, hsection⟩ := statements?_section t hlead hname place
      (ts.flatMap fun t : Section ↦ '\n' :: t.text) fuel hfuel
    obtain ⟨place', hsections⟩ := ih (nodes ++ [t.node]) hnames' [t.name] fuel₁ hfuel₁
    refine ⟨place', hsection.trans (hsections.trans ?_)⟩
    rw [List.append_assoc]
    rfl

theorem entriesToValues_settings (settings : List Setting) :
    entriesToValues (settings.map Setting.node) = settings.map fun s ↦ (s.key, s.value) := by
  induction settings with
  | nil => rfl
  | cons s settings ih =>
    rw [List.map_cons, List.map_cons, ← ih]
    rfl

theorem entriesToValues_sections (ts : List Section) :
    entriesToValues (ts.map Section.node) = ts.map Section.entry := by
  induction ts with
  | nil => rfl
  | cons t ts ih =>
    rw [List.map_cons, List.map_cons, ← ih, Section.entry, ← entriesToValues_settings]
    rfl

/-- **A document in sections of different names is read as a table with one table per section.** -/
theorem parse?_documentText (ts : List Section) (hnames : (ts.map Section.name).Nodup) :
    parse? (documentText ts) = some (ts.map Section.entry) := by
  have hmark : dropMark (documentText ts) = documentText ts := by
    cases ts with
    | nil => rfl
    | cons t ts => rfl
  rw [parse?, hmark]
  cases ts with
  | nil => rfl
  | cons t ts =>
    have hlead : ∀ cs, skipAllLines? ([] ++ '[' :: cs) = some ('[' :: cs) :=
      skipAllLines?_of_visible rfl
    have hname : t.name ∉ ([] : Nodes).map Prod.fst := List.not_mem_nil
    obtain ⟨fuel, hfuel, hsection⟩ := statements?_section t hlead hname []
      (ts.flatMap fun t : Section ↦ '\n' :: t.text) _ (Nat.lt_succ_self _)
    obtain ⟨place, hsections⟩ := statements?_sections ts [t.node] hnames [t.name] fuel hfuel
    have hread := hsection.trans hsections
    rw [List.nil_append] at hread
    refine (congrArg (Option.map Draft.entries) hread).trans ?_
    exact congrArg some (entriesToValues_sections (t :: ts))

end DampedLeastSquares.Toml
