import WorkspaceImports.Proofs.Json.Letters
import WorkspaceImports.Proofs.Text.Newline
import WorkspaceImports.Proofs.Text.Segments

namespace WorkspaceImports.Json

-- What a part of a text stands for, with the blanks before it and after it.
structure Part (α : Type) where
  found : α
  before : Text
  core : Text
  after : Text

namespace Part

variable {α : Type}

def text (part : Part α) : Text := part.before ++ part.core ++ part.after

def Spaced (part : Part α) : Prop :=
  (∀ c ∈ part.before, Reader.isBlank c) ∧ ∀ c ∈ part.after, Reader.isBlank c

-- A part without blanks around it.
def bare (found : α) (core : Text) : Part α := ⟨found, [], core, []⟩

@[simp] theorem text_bare (found : α) (core : Text) : (bare found core).text = core := by
  simp [text, bare]

theorem spaced_bare (found : α) (core : Text) : (bare found core).Spaced :=
  ⟨by simp [bare], by simp [bare]⟩

-- A name and a value with a colon between them.
def member (part : Part Text × Part Json) : Part (Text × Json) :=
  ⟨(part.1.found, part.2.found), part.1.before,
    part.1.core ++ (part.1.after ++ ':' :: (part.2.before ++ part.2.core)), part.2.after⟩

theorem text_member (part : Part Text × Part Json) :
    (member part).text = part.1.text ++ ':' :: part.2.text := by
  simp [text, member]

end Part

-- A text between quotes.
def Quotes (text core : Text) : Prop :=
  ∃ written, SpellsText text written ∧ core = '"' :: (written ++ ['"'])

-- The ways to write a value, as the grammar of JSON has them. Numbers are left out.
inductive Spells : Json → Text → Prop
  | null : Spells .null "null".toList
  | true : Spells (.bool true) "true".toList
  | false : Spells (.bool false) "false".toList
  | text {value core : Text} (h : Quotes value core) : Spells (.text value) core
  | emptyArray {blanks : Text} (h : ∀ c ∈ blanks, Reader.isBlank c) :
      Spells (.array []) ('[' :: (blanks ++ [']']))
  | array {items : List (Part Json)} (hne : items ≠ []) (hspaced : ∀ item ∈ items, item.Spaced)
      (h : ∀ item ∈ items, Spells item.found item.core) :
      Spells (.array (items.map Part.found)) ('[' :: (Text.join ',' (items.map Part.text) ++ [']']))
  | emptyObject {blanks : Text} (h : ∀ c ∈ blanks, Reader.isBlank c) :
      Spells (.object []) ('\x7b' :: (blanks ++ ['\x7d']))
  | object {members : List (Part Text × Part Json)} (hne : members ≠ [])
      (hspaced : ∀ part ∈ members, part.1.Spaced ∧ part.2.Spaced)
      (hnames : ∀ part ∈ members, Quotes part.1.found part.1.core)
      (h : ∀ part ∈ members, Spells part.2.found part.2.core) :
      Spells (.object (members.map fun part => (part.1.found, part.2.found)))
        ('\x7b' :: (Text.join ',' (members.map fun part => part.1.text ++ ':' :: part.2.text) ++
          ['\x7d']))

-- A text that holds one value and else only blanks.
def Document (json : Json) (text : Text) : Prop :=
  ∃ part : Part Json, part.found = json ∧ part.text = text ∧ part.Spaced ∧ Spells json part.core

-- A text that begins with no blank, with no character that closes a container and with no mark of
-- the order of bytes.
def Begins (core : Text) : Prop :=
  ∃ c rest, core = c :: rest ∧ Reader.isBlank c = false ∧ c ≠ ']' ∧ c ≠ '\x7d' ∧ c ≠ '\uFEFF'

theorem Begins.append {core : Text} (h : Begins core) (rest : Text) : Begins (core ++ rest) := by
  obtain ⟨c, more, rfl, hc⟩ := h
  exact ⟨c, more ++ rest, rfl, hc⟩

section Ends

variable {json : Json} {text core : Text}

theorem Quotes.begins (h : Quotes text core) : Begins core := by
  obtain ⟨written, -, rfl⟩ := h
  exact ⟨'"', _, rfl, by decide⟩

theorem Spells.begins (h : Spells json core) : Begins core := by
  cases h with
  | null => exact ⟨'n', _, rfl, by decide⟩
  | true => exact ⟨'t', _, rfl, by decide⟩
  | false => exact ⟨'f', _, rfl, by decide⟩
  | text hquotes => exact hquotes.begins
  | emptyArray => exact ⟨'[', _, rfl, by decide⟩
  | array => exact ⟨'[', _, rfl, by decide⟩
  | emptyObject => exact ⟨'\x7b', _, rfl, by decide⟩
  | object => exact ⟨'\x7b', _, rfl, by decide⟩

-- At its end no written value takes a line feed after it as a part of a line end.
theorem Quotes.getLast? (h : Quotes text core) : core.getLast? = some '"' := by
  obtain ⟨written, -, rfl⟩ := h
  rw [← List.cons_append, List.getLast?_concat]

theorem Spells.getLast? (h : Spells json core) : core.getLast? ≠ some '\r' := by
  cases h with
  | null => decide
  | true => decide
  | false => decide
  | text hquotes => simp [hquotes.getLast?]
  | emptyArray => rw [← List.cons_append, List.getLast?_concat]; decide
  | array => rw [← List.cons_append, List.getLast?_concat]; decide
  | emptyObject => rw [← List.cons_append, List.getLast?_concat]; decide
  | object => rw [← List.cons_append, List.getLast?_concat]; decide

end Ends

section Newlines

open Text (unifyNewlines)

theorem Digits.noReturn {code : Nat} {written : Text} (h : Digits code written) :
    '\r' ∉ written := by
  obtain ⟨a, b, c, d, hdigits, -⟩ := h
  intro hmem
  have hvalue : Text.hexValue? '\r' ∈ [some a, some b, some c, some d] :=
    hdigits ▸ List.mem_map_of_mem hmem
  have hnone : Text.hexValue? '\r' = none := by decide
  simp [hnone] at hvalue

-- A string has no line end in it, so none of it is touched.
theorem SpellsText.noReturn {text written : Text} (h : SpellsText text written) :
    '\r' ∉ written := by
  induction h with
  | nil => simp
  | cons hfirst _ ih =>
      rw [List.mem_append, not_or]
      refine ⟨?_, ih⟩
      cases hfirst with
      | raw hquote hslash hcontrol =>
          intro hmem
          rw [← List.mem_singleton.mp hmem] at hcontrol
          exact absurd hcontrol (by decide)
      | @short letter hshort =>
          have hletter : letter ≠ '\r' := by
            rintro rfl
            revert hshort
            simp [shortEscapes]
          simpa using Ne.symm hletter
      | code hdigits => simpa using hdigits.noReturn
      | halves _ hhigh hlow => simp [hhigh.noReturn, hlow.noReturn]

theorem Quotes.unify {text core : Text} (h : Quotes text core) : unifyNewlines core = core := by
  obtain ⟨written, hwritten, rfl⟩ := h
  exact Text.unifyNewlines_of_notMem (by simp [hwritten.noReturn])

namespace Part

variable {α : Type} {part : Part α}

def unify (part : Part α) : Part α :=
  ⟨part.found, unifyNewlines part.before, unifyNewlines part.core, unifyNewlines part.after⟩

theorem text_unify (hbegins : Begins part.core) (hend : part.core.getLast? ≠ some '\r') :
    part.unify.text = unifyNewlines part.text := by
  obtain ⟨c, rest, hcore, hc, -⟩ := hbegins
  have hlast : (part.before ++ part.core).getLast? ≠ some '\r' := by
    simpa [List.getLast?_append, hcore] using hend
  have hhead : part.core.head? ≠ some '\n' := by
    rw [hcore, List.head?_cons]
    rintro ⟨⟩
    exact absurd hc (by decide)
  rw [text, text, Text.unifyNewlines_append fun h => absurd h hlast,
    Text.unifyNewlines_append fun _ => hhead]
  rfl

theorem blank_of_unify {blanks : Text} (h : ∀ c ∈ blanks, Reader.isBlank c) :
    ∀ c ∈ unifyNewlines blanks, Reader.isBlank c := by
  intro c hmem
  rcases Text.mem_unifyNewlines hmem with rfl | hmem
  · decide
  · exact h c hmem

theorem Spaced.unify (h : part.Spaced) : part.unify.Spaced :=
  ⟨blank_of_unify h.1, blank_of_unify h.2⟩

end Part

-- Where line ends are unified, another way to write the same value comes about.
theorem Spells.unify {json : Json} {core : Text} (h : Spells json core) :
    Spells json (unifyNewlines core) := by
  induction h with
  | null => exact .null
  | true => exact .true
  | false => exact .false
  | text hquotes =>
      rw [hquotes.unify]
      exact .text hquotes
  | emptyArray hblanks =>
      rw [Text.unifyNewlines_cons (by decide), Text.unifyNewlines_solid (by decide) (by decide)]
      exact .emptyArray (Part.blank_of_unify hblanks)
  | @array items hne hspaced hitems ih =>
      have htexts : (items.map Part.text).map unifyNewlines =
          (items.map Part.unify).map Part.text := by
        rw [List.map_map, List.map_map]
        exact List.map_congr_left fun item hmem =>
          (Part.text_unify (hitems item hmem).begins (hitems item hmem).getLast?).symm
      have hfound : items.map Part.found = (items.map Part.unify).map Part.found := by
        rw [List.map_map]
        rfl
      rw [Text.unifyNewlines_cons (by decide), Text.unifyNewlines_solid (by decide) (by decide),
        Text.unifyNewlines_join (by decide) (by decide), htexts, hfound]
      refine .array (by simpa using hne) ?_ ?_
      · exact List.forall_mem_map.mpr fun item hmem => (hspaced item hmem).unify
      · exact List.forall_mem_map.mpr ih
  | emptyObject hblanks =>
      rw [Text.unifyNewlines_cons (by decide), Text.unifyNewlines_solid (by decide) (by decide)]
      exact .emptyObject (Part.blank_of_unify hblanks)
  | @object members hne hspaced hnames hmembers ih =>
      let unify (part : Part Text × Part Json) := (part.1.unify, part.2.unify)
      let text (part : Part Text × Part Json) := part.1.text ++ ':' :: part.2.text
      have htexts : (members.map text).map unifyNewlines = (members.map unify).map text := by
        rw [List.map_map, List.map_map]
        refine List.map_congr_left fun part hmem => ?_
        have hname := hnames part hmem
        have hvalue := hmembers part hmem
        have hreturn : part.1.core.getLast? ≠ some '\r' := by simp [hname.getLast?]
        simp only [Function.comp, text, unify,
          Text.unifyNewlines_solid (show ':' ≠ '\r' by decide) (show ':' ≠ '\n' by decide),
          Part.text_unify hname.begins hreturn, Part.text_unify hvalue.begins hvalue.getLast?]
      have hfound : members.map (fun part => (part.1.found, part.2.found)) =
          (members.map unify).map fun part => (part.1.found, part.2.found) := by
        rw [List.map_map]
        rfl
      rw [Text.unifyNewlines_cons (by decide), Text.unifyNewlines_solid (by decide) (by decide),
        Text.unifyNewlines_join (by decide) (by decide), htexts, hfound]
      refine .object (by simpa using hne) ?_ ?_ ?_
      · exact List.forall_mem_map.mpr fun part hmem =>
          ⟨(hspaced part hmem).1.unify, (hspaced part hmem).2.unify⟩
      · refine List.forall_mem_map.mpr fun part hmem => ?_
        change Quotes part.1.found (unifyNewlines part.1.core)
        rw [(hnames part hmem).unify]
        exact hnames part hmem
      · exact List.forall_mem_map.mpr ih

-- The same goes for a whole text.
theorem Document.unify {json : Json} {text : Text} (h : Document json text) :
    Document json (unifyNewlines text) := by
  obtain ⟨part, hfound, rfl, hspaced, hspells⟩ := h
  refine ⟨part.unify, hfound, ?_, hspaced.unify, hspells.unify⟩
  exact Part.text_unify hspells.begins hspells.getLast?

end Newlines

end WorkspaceImports.Json
