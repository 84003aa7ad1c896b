import WorkspaceImports.Proofs.Json.Depth
import WorkspaceImports.Proofs.Json.Spelling

namespace WorkspaceImports.Json

namespace Reader

section Blanks

variable {blanks text rest : Text} {c : Char}

theorem drop_blankCount (text : Text) : text.drop (blankCount text) = text.dropWhile isBlank := by
  induction text with
  | nil => rfl
  | cons c rest ih =>
      unfold blankCount at ih ⊢
      rw [List.takeWhile_cons, List.dropWhile_cons]
      split
      · exact ih
      · rfl

theorem blankCount_append (hc : isBlank c = false) :
    blankCount (text ++ c :: rest) = blankCount text := by
  induction text with
  | nil => simp [blankCount, hc]
  | cons d text ih =>
      unfold blankCount at ih ⊢
      rw [List.cons_append, List.takeWhile_cons, List.takeWhile_cons]
      split
      · rw [List.length_cons, List.length_cons, ih]
      · rfl

theorem dropWhile_append_stop (hc : isBlank c = false) :
    (text ++ c :: rest).dropWhile isBlank = text.dropWhile isBlank ++ c :: rest := by
  rw [List.dropWhile_append]
  split
  · rename_i hempty
    rw [List.isEmpty_iff.mp hempty, List.dropWhile_cons_of_neg (by simp [hc])]
    rfl
  · rfl

theorem length_eq_blankCount_add (text : Text) :
    text.length = blankCount text + (text.dropWhile isBlank).length := by
  rw [← drop_blankCount, List.length_drop]
  have hle : blankCount text ≤ text.length := (List.takeWhile_sublist isBlank).length_le
  omega

theorem blankCount_of_blank (hblanks : ∀ c ∈ blanks, isBlank c) :
    blankCount blanks = blanks.length := by
  have hdrop : (blanks ++ []).dropWhile isBlank = [] := List.dropWhile_append_of_pos hblanks
  have hlength := length_eq_blankCount_add blanks
  rw [List.append_nil] at hdrop
  rw [hdrop, List.length_nil] at hlength
  omega

theorem drop_blanks (rest : Text) (hblanks : ∀ c ∈ blanks, isBlank c) (hc : isBlank c = false) :
    blankCount (blanks ++ c :: rest) = blanks.length ∧
      (blanks ++ c :: rest).drop (blankCount (blanks ++ c :: rest)) = c :: rest := by
  have hcount : blankCount (blanks ++ c :: rest) = blanks.length := by
    rw [blankCount_append hc, blankCount_of_blank hblanks]
  exact ⟨hcount, by rw [hcount, List.drop_left]⟩

end Blanks

section Sequences

variable {α : Type}

-- The text of a value is read as the value, whatever follows it.
def Reads (first : Text → Read α) (found : α) (core : Text) : Prop :=
  ∀ rest, first (core ++ rest) = .ok (found, core.length)

-- How a list is read whose parts stand between commas, up to the character that closes it.
structure Sequence (first : Text → Read α) (close : Char) (list : Text → Read (List α)) : Prop where
  closes : close = ']' ∨ close = '\x7d'
  last : ∀ {text rest : Text} {found : α} {count : Nat}, first text = .ok (found, count) →
    text.drop (count + blankCount (text.drop count)) = close :: rest →
      list text = .ok ([found], count + blankCount (text.drop count) + 1)
  next : ∀ {text rest : Text} {found : α} {count : Nat}, first text = .ok (found, count) →
    text.drop (count + blankCount (text.drop count)) = ',' :: rest →
      list text = (list (rest.drop (blankCount rest))).map fun (more, length) =>
        (found :: more, count + blankCount (text.drop count) + 1 + blankCount rest + length)

theorem items_sequence (value : Text → Read Json) : Sequence value ']' (items value) :=
  ⟨Or.inl rfl, items_last, items_next⟩

theorem members_sequence (value : Text → Read Json) :
    Sequence (member value) '\x7d' (members value) :=
  ⟨Or.inr rfl, members_last, members_next⟩

theorem Sequence.close_not_blank {first : Text → Read α} {close : Char}
    {list : Text → Read (List α)} (h : Sequence first close list) : isBlank close = false := by
  rcases h.closes with rfl | rfl <;> rfl

-- Behind a part come its blanks, and then what stands behind these.
theorem drop_part (core rest : Text) {after : Text} {c : Char} (hafter : ∀ c ∈ after, isBlank c)
    (hc : isBlank c = false) :
    core.length + blankCount ((core ++ (after ++ c :: rest)).drop core.length) =
      (core ++ after).length ∧ (core ++ (after ++ c :: rest)).drop (core ++ after).length =
        c :: rest := by
  constructor
  · rw [List.drop_left, (drop_blanks rest hafter hc).1, List.length_append]
  · rw [← List.append_assoc, List.drop_left]

theorem dropWhile_text {part : Part α} (hspaced : part.Spaced) (hbegins : Begins part.core) :
    part.text.dropWhile isBlank = part.core ++ part.after := by
  obtain ⟨c, rest, hcore, hc, -⟩ := hbegins
  rw [Part.text, List.append_assoc, List.dropWhile_append_of_pos hspaced.1, hcore,
    List.cons_append, List.dropWhile_cons_of_neg (by simp [hc])]

theorem begins_join {parts : List (Part α)} (hne : parts ≠ [])
    (hspaced : ∀ part ∈ parts, part.Spaced) (hbegins : ∀ part ∈ parts, Begins part.core) :
    Begins ((Text.join ',' (parts.map Part.text)).dropWhile isBlank) := by
  obtain ⟨part, more, rfl⟩ := List.exists_cons_of_ne_nil hne
  have hcore := dropWhile_text (hspaced part List.mem_cons_self) (hbegins part List.mem_cons_self)
  have hbegin := (hbegins part List.mem_cons_self).append part.after
  cases more with
  | nil => simpa [Text.join, hcore] using hbegin
  | cons second more =>
      rw [List.map_cons, List.map_cons, Text.join_cons_cons, dropWhile_append_stop (by decide),
        hcore]
      exact hbegin.append _

-- All parts are read in turn, from the first one on and with the closing character.
theorem Sequence.read_join {first : Text → Read α} {close : Char} {list : Text → Read (List α)}
    (h : Sequence first close list) {parts : List (Part α)} (hne : parts ≠ [])
    (hspaced : ∀ part ∈ parts, part.Spaced) (hbegins : ∀ part ∈ parts, Begins part.core)
    (hreads : ∀ part ∈ parts, Reads first part.found part.core) (rest : Text) :
    list ((Text.join ',' (parts.map Part.text)).dropWhile isBlank ++ close :: rest) =
      .ok (parts.map Part.found,
        ((Text.join ',' (parts.map Part.text)).dropWhile isBlank).length + 1) := by
  induction parts with
  | nil => exact absurd rfl hne
  | cons part parts ih =>
      obtain ⟨hpart, hspaced⟩ := List.forall_mem_cons.mp hspaced
      obtain ⟨hbegin, hbegins⟩ := List.forall_mem_cons.mp hbegins
      obtain ⟨hread, hreads⟩ := List.forall_mem_cons.mp hreads
      have hcore := dropWhile_text hpart hbegin
      cases parts with
      | nil =>
          obtain ⟨hcount, hdrop⟩ := drop_part part.core rest hpart.2 h.close_not_blank
          have hlast := h.last (hread (part.after ++ close :: rest)) (hcount ▸ hdrop)
          rw [hcount] at hlast
          simpa [Text.join, hcore] using hlast
      | cons second more =>
          have hjoined : Text.join ',' ((part :: second :: more).map Part.text) =
              part.text ++ ',' :: Text.join ',' ((second :: more).map Part.text) :=
            Text.join_cons_cons _ _ _
          have hcomma : isBlank ',' = false := by decide
          generalize hothers : Text.join ',' ((second :: more).map Part.text) = others at *
          obtain ⟨hcount, hdrop⟩ := drop_part part.core (others ++ close :: rest) hpart.2 hcomma
          have hnext := h.next (hread (part.after ++ ',' :: (others ++ close :: rest)))
            (hcount ▸ hdrop)
          rw [hcount, drop_blankCount, dropWhile_append_stop h.close_not_blank,
            blankCount_append h.close_not_blank, ih (by simp) hspaced hbegins hreads] at hnext
          have hlength := length_eq_blankCount_add others
          rw [hjoined, dropWhile_append_stop hcomma, hcore]
          simp only [List.append_assoc, List.cons_append, List.length_append] at hnext ⊢
          rw [hnext]
          simp only [Except.map, List.map_cons, List.length_cons, Except.ok.injEq, Prod.mk.injEq,
            true_and]
          omega

-- So is all that stands between the two ends of a container.
theorem Sequence.read_inner {first : Text → Read α} {close : Char} {list : Text → Read (List α)}
    (h : Sequence first close list) {parts : List (Part α)} (hne : parts ≠ [])
    (hspaced : ∀ part ∈ parts, part.Spaced) (hbegins : ∀ part ∈ parts, Begins part.core)
    (hreads : ∀ part ∈ parts, Reads first part.found part.core) (rest : Text) :
    let inner := Text.join ',' (parts.map Part.text)
    let text := inner ++ close :: rest
    (text.drop (blankCount text)).head? ≠ some close ∧
      ∃ length, list (text.drop (blankCount text)) = .ok (parts.map Part.found, length) ∧
        1 + blankCount text + length = inner.length + 2 := by
  intro inner text
  have hdrop : text.drop (blankCount text) = inner.dropWhile isBlank ++ close :: rest := by
    rw [drop_blankCount, dropWhile_append_stop h.close_not_blank]
  have hlength := length_eq_blankCount_add inner
  have hblanks : blankCount text = blankCount inner := blankCount_append h.close_not_blank
  rw [hdrop]
  constructor
  · obtain ⟨c, more, hinner, -, hbracket, hbrace, -⟩ := begins_join hne hspaced hbegins
    rw [hinner, List.cons_append, List.head?_cons]
    rcases h.closes with rfl | rfl
    · simpa using hbracket
    · simpa using hbrace
  · refine ⟨_, h.read_join hne hspaced hbegins hreads rest, ?_⟩
    change 1 + blankCount text + ((inner.dropWhile isBlank).length + 1) = inner.length + 2
    omega

end Sequences

section Texts

theorem string_quotes {text core : Text} (h : Quotes text core) :
    Reads string (text.map Letter.char) core := by
  obtain ⟨written, hwritten, rfl⟩ := h
  intro rest
  have hsplit : '"' :: (written ++ ['"']) ++ rest = '"' :: (written ++ '"' :: rest) := by simp
  rw [hsplit, string, List.drop_succ_cons, List.drop_zero, letters_text hwritten]
  simp only [List.length_cons, List.length_append, List.length_nil, Except.ok.injEq,
    Prod.mk.injEq, true_and]
  omega

theorem lenient_letters (text : Text) : (text.map Letter.char).map Letter.lenient = text := by
  rw [List.map_map]
  exact List.map_id text

theorem ofLetters_text (text : Text) : ofLetters (text.map .char) = .text text := by
  have hwhole : (text.map Letter.char).any Letter.isHalf = false := by simp [Letter.isHalf]
  rw [ofLetters, hwhole, lenient_letters]
  rfl

theorem value_text {depth : Nat} {text core : Text} (h : Quotes text core) :
    Reads (value depth) (.text text) core := by
  intro rest
  have hread := string_quotes h rest
  obtain ⟨written, -, rfl⟩ := h
  rw [value_scalar (by simp) (by simp)]
  simp only [List.cons_append, scalar] at hread ⊢
  rw [hread]
  simp [Except.map, ofLetters_text]

theorem member_reads {value : Text → Read Json} {name : Part Text} {part : Part Json}
    (hname : Quotes name.found name.core) (hnamed : name.Spaced) (hspaced : part.Spaced)
    (hbegins : Begins part.core) (hread : Reads value part.found part.core) :
    Reads (member value) (name.found, part.found) (Part.member (name, part)).core := by
  intro rest
  have hcolon : isBlank ':' = false := by decide
  have hstring := string_quotes hname (name.after ++ ':' :: (part.before ++ part.core ++ rest))
  have hquote : (name.core ++ (name.after ++ ':' :: (part.before ++ part.core ++ rest))).head? =
      some '"' := by
    obtain ⟨written, -, hcore⟩ := hname
    simp [hcore]
  obtain ⟨hcount, hdrop⟩ := drop_part name.core (part.before ++ part.core ++ rest) hnamed.2 hcolon
  obtain ⟨c, more, hcore, hc, -⟩ := hbegins
  have hblanks : blankCount (part.before ++ part.core ++ rest) = part.before.length := by
    rw [List.append_assoc, hcore, List.cons_append, (drop_blanks _ hspaced.1 hc).1]
  have hvalue : (part.before ++ part.core ++ rest).drop part.before.length =
      part.core ++ rest := by
    rw [List.append_assoc, List.drop_left]
  have hsplit : (Part.member (name, part)).core ++ rest =
      name.core ++ (name.after ++ ':' :: (part.before ++ part.core ++ rest)) := by
    simp [Part.member]
  rw [hsplit, member]
  simp only [hquote, hstring, hcount, hdrop, hblanks, hvalue, hread rest,
    lenient_letters]
  simp [Part.member, Nat.add_assoc]
  omega

end Texts

section Values

variable {depth : Nat}

theorem value_items {items : List (Part Json)} (hne : items ≠ [])
    (hspaced : ∀ item ∈ items, item.Spaced) (hbegins : ∀ item ∈ items, Begins item.core)
    (hreads : ∀ item ∈ items, Reads (value depth) item.found item.core) :
    Reads (value (depth + 1)) (.array (items.map Part.found))
      ('[' :: (Text.join ',' (items.map Part.text) ++ [']'])) := by
  intro rest
  obtain ⟨hhead, length, hread, hlength⟩ :=
    (items_sequence (value depth)).read_inner hne hspaced hbegins hreads rest
  rw [List.cons_append, List.append_assoc, List.singleton_append, value_array hhead, hread]
  simp only [Except.map, hlength, List.length_cons, List.length_append, List.length_nil]

theorem value_members {members : List (Part Text × Part Json)} (hne : members ≠ [])
    (hspaced : ∀ part ∈ members, part.1.Spaced ∧ part.2.Spaced)
    (hnames : ∀ part ∈ members, Quotes part.1.found part.1.core)
    (hbegins : ∀ part ∈ members, Begins part.2.core)
    (hreads : ∀ part ∈ members, Reads (value depth) part.2.found part.2.core) :
    Reads (value (depth + 1)) (.object (members.map fun part => (part.1.found, part.2.found)))
      ('\x7b' :: (Text.join ',' (members.map fun part => part.1.text ++ ':' :: part.2.text) ++
        ['\x7d'])) := by
  have hne : members.map Part.member ≠ [] := by simpa using hne
  have hparts : ∀ part ∈ members.map Part.member, part.Spaced := by
    simp only [List.forall_mem_map]
    exact fun part hmem => ⟨(hspaced part hmem).1.1, (hspaced part hmem).2.2⟩
  have hopen : ∀ part ∈ members.map Part.member, Begins part.core := by
    simp only [List.forall_mem_map]
    intro part hmem
    obtain ⟨written, -, hcore⟩ := hnames part hmem
    exact ⟨'"', _, by rw [Part.member, hcore]; rfl, by decide⟩
  have hread : ∀ part ∈ members.map Part.member,
      Reads (member (value depth)) part.found part.core := by
    simp only [List.forall_mem_map]
    intro part hmem
    obtain ⟨hname, hvalue⟩ := hspaced part hmem
    exact member_reads (hnames part hmem) hname hvalue (hbegins part hmem) (hreads part hmem)
  intro rest
  obtain ⟨hhead, length, hlist, hlength⟩ :=
    (members_sequence (value depth)).read_inner hne hparts hopen hread rest
  have htexts : Part.text ∘ Part.member = fun part => part.1.text ++ ':' :: part.2.text :=
    funext Part.text_member
  have hfound : Part.found ∘ Part.member = fun part => (part.1.found, part.2.found) := rfl
  simp only [List.map_map, htexts, hfound] at hhead hlist hlength
  rw [List.cons_append, List.append_assoc, List.singleton_append, value_object hhead, hlist]
  simp only [Except.map, hlength, List.length_cons, List.length_append, List.length_nil]

theorem value_noItems {blanks : Text} (hblanks : ∀ c ∈ blanks, isBlank c) :
    Reads (value (depth + 1)) (.array []) ('[' :: (blanks ++ [']'])) := by
  intro rest
  obtain ⟨hcount, hdrop⟩ := drop_blanks rest hblanks (show isBlank ']' = false by decide)
  rw [List.cons_append, List.append_assoc, List.singleton_append, value_emptyArray hdrop, hcount]
  simp

theorem value_noMembers {blanks : Text} (hblanks : ∀ c ∈ blanks, isBlank c) :
    Reads (value (depth + 1)) (.object []) ('\x7b' :: (blanks ++ ['\x7d'])) := by
  intro rest
  obtain ⟨hcount, hdrop⟩ := drop_blanks rest hblanks (show isBlank '\x7d' = false by decide)
  rw [List.cons_append, List.append_assoc, List.singleton_append, value_emptyObject hdrop, hcount]
  simp

end Values

-- A value is read from every way to write it, if its containers are not too many in each other.
theorem value_spelled {json : Json} {core : Text} (h : Spells json core) :
    ∀ {depth : Nat}, json.height ≤ depth → Reads (value depth) json core := by
  induction h with
  | null =>
      intro depth _ rest
      rw [value_scalar (by simp) (by simp)]
      rfl
  | true =>
      intro depth _ rest
      rw [value_scalar (by simp) (by simp)]
      rfl
  | false =>
      intro depth _ rest
      rw [value_scalar (by simp) (by simp)]
      rfl
  | text hquotes => exact fun _ => value_text hquotes
  | emptyArray hblanks =>
      intro depth hheight
      rw [height] at hheight
      obtain ⟨depth, rfl⟩ := Nat.exists_eq_add_of_lt (show 0 < depth by omega)
      exact value_noItems hblanks
  | @array items hne hspaced hitems ih =>
      intro depth hheight
      rw [height] at hheight
      obtain ⟨depth, rfl⟩ := Nat.exists_eq_add_of_lt (show 0 < depth by omega)
      have hheights := itemsHeight_le_iff.mp (Nat.le_of_succ_le_succ hheight)
      rw [List.forall_mem_map] at hheights
      refine value_items hne hspaced (fun item hmem => (hitems item hmem).begins) ?_
      exact fun item hmem => ih item hmem (by simpa using hheights item hmem)
  | emptyObject hblanks =>
      intro depth hheight
      rw [height] at hheight
      obtain ⟨depth, rfl⟩ := Nat.exists_eq_add_of_lt (show 0 < depth by omega)
      exact value_noMembers hblanks
  | @object members hne hspaced hnames hmembers ih =>
      intro depth hheight
      rw [height] at hheight
      obtain ⟨depth, rfl⟩ := Nat.exists_eq_add_of_lt (show 0 < depth by omega)
      have hheights := membersHeight_le_iff.mp (Nat.le_of_succ_le_succ hheight)
      rw [List.forall_mem_map] at hheights
      refine value_members hne hspaced hnames (fun part hmem => (hmembers part hmem).begins) ?_
      exact fun part hmem => ih part hmem (by simpa using hheights part hmem)

-- So is a whole text, with the blanks around the value.
theorem read_document {json : Json} {text : Text} (h : Document json text)
    (hheight : json.height ≤ depthLimit) : read text = .ok json := by
  obtain ⟨part, rfl, rfl, ⟨hbefore, hafter⟩, hspells⟩ := h
  have hvalue := value_spelled hspells hheight part.after
  have hsplit : part.text = part.before ++ (part.core ++ part.after) := List.append_assoc _ _ _
  obtain ⟨c, more, hcore, hc, -, -, hmark⟩ := hspells.begins
  have hhead : part.text.head? ≠ some '\uFEFF' := by
    rw [hsplit, hcore]
    cases hblanks : part.before with
    | nil => simpa using hmark
    | cons blank before =>
        rintro ⟨⟩
        exact absurd (hbefore '\uFEFF' (by simp [hblanks])) (by decide)
  have hcount : blankCount part.text = part.before.length := by
    rw [hsplit, hcore]
    exact (drop_blanks _ hbefore hc).1
  have hcut : part.text.drop (blankCount part.text) = part.core ++ part.after := by
    rw [hcount, hsplit, List.drop_left]
  have hrest : part.text.drop (blankCount part.text + part.core.length) = part.after := by
    rw [← List.drop_drop, hcut, List.drop_left]
  have hend : part.after.drop (blankCount part.after) = [] := by
    rw [blankCount_of_blank hafter, List.drop_length]
  rw [read, if_neg hhead]
  simp only [hcut, hvalue, hrest, hend]

end Reader

end WorkspaceImports.Json
