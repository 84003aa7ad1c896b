import WorkspaceImports.CommandLine.Arguments
import WorkspaceImports.Proofs.Configuration.Format

namespace WorkspaceImports

namespace CommandLine

variable {α : Type} {known after : Given} {switch : Switch} {value : Text} {words : List Word}

-- The values that words give to a switch that takes one, in order. A value is attached to the
-- switch or is the plain word after it.
def Word.valuesOf (switch : Switch) : List Word → List Text
  | [] => []
  | .named found (some attached) :: rest =>
      if found = switch then attached.value :: valuesOf switch rest else valuesOf switch rest
  | .named found none :: rest =>
      match rest with
      | .plain value :: _ =>
          if found = switch then value :: valuesOf switch rest else valuesOf switch rest
      | _ => valuesOf switch rest
  | _ :: rest => valuesOf switch rest

theorem Word.valuesOf_bare (switch : Switch) {word : Word} (h : word.isBare = true)
    (rest : List Word) : valuesOf switch (word :: rest) = valuesOf switch rest := by
  cases word with
  | plain written => rfl
  | dashes => rfl
  | named found attached => cases h
  | unknown written => cases h

theorem Word.valuesOf_other {found switch : Switch} (h : found ≠ switch) (rest : List Word) :
    valuesOf switch (.named found none :: rest) = valuesOf switch rest := by
  conv => lhs; unfold valuesOf
  split
  · rw [if_neg h]
  · rfl

theorem Word.valuesOf_dropWhile_isBare (switch : Switch) (words : List Word) :
    valuesOf switch (words.dropWhile isBare) = valuesOf switch words := by
  induction words with
  | nil => rfl
  | cons word rest ih =>
      cases hbare : word.isBare with
      | true => rw [List.dropWhile_cons_of_pos hbare, ih, valuesOf_bare switch hbare]
      | false => rw [List.dropWhile_cons_of_neg (by simp [hbare])]

-- The text that the arguments give to a switch. The last one counts.
def valueFor? (switch : Switch) (texts : List Text) : Option Text :=
  match Word.ofTexts texts with
  | .ok words => (Word.valuesOf switch words).getLast?
  | .error _ => none

namespace Given

-- What a switch with its value changes. A strategy is one by its name, and two dashes are none.
theorem set_eq_ok (h : known.set switch value = .ok after) :
    (switch = .workspace ∧ after = { known with workspace := .ofText value }) ∨
    (switch = .folders ∧ after = { known with folders := .ofText value }) ∨
    (switch = .strategy ∧ after = { known with strategy := Strategy.ofName? value } ∧
      (value = ['-', '-'] ∨ ∃ strategy, Strategy.ofName? value = some strategy)) := by
  cases switch with
  | help => cases h
  | verbose => cases h
  | workspace => exact Or.inl ⟨rfl, (Except.ok.inj h).symm⟩
  | folders => exact Or.inr (Or.inl ⟨rfl, (Except.ok.inj h).symm⟩)
  | strategy =>
      refine Or.inr (Or.inr ⟨rfl, ?_⟩)
      unfold set Value.ofText at h
      by_cases hdashes : value = ['-', '-']
      · subst hdashes
        have hnone : Strategy.ofName? ['-', '-'] = none := by decide +kernel
        rw [hnone]
        exact ⟨(Except.ok.inj h).symm, Or.inl rfl⟩
      · simp only [hdashes, if_false] at h
        cases hname : Strategy.ofName? value with
        | none =>
            rw [hname] at h
            cases h
        | some strategy =>
            rw [hname] at h
            exact ⟨(Except.ok.inj h).symm, Or.inr ⟨strategy, rfl⟩⟩

theorem raise_eq_ok (h : known.raise switch = .ok after) :
    after = { known with verbose := true } := by
  cases switch with
  | verbose => exact (Except.ok.inj h).symm
  | help => cases h
  | workspace => cases h
  | strategy => cases h
  | folders => cases h

-- Words that stand together give an owner and imports, and nothing else.
theorem place_eq (known : Given) (run : List Word) :
    ∃ owner imports unrecognized,
      known.place run = { known with owner, imports, unrecognized } := by
  unfold place leftOver
  split
  · split <;> exact ⟨_, _, _, rfl⟩
  · split <;> exact ⟨_, _, _, rfl⟩
  · exact ⟨_, _, _, rfl⟩

theorem finish_eq_ok {arguments : Arguments} (h : known.finish = .ok arguments) :
    arguments.folders = known.folders ∧ arguments.strategy = known.strategy := by
  unfold finish at h
  split at h
  · split at h
    · cases h
      exact ⟨rfl, rfl⟩
    · cases h
  · cases h
  · cases h
  · cases h

-- A part of what is given that holds the value of one switch, as it is read, and that nothing else
-- touches.
structure Holds (part : Given → α) (switch : Switch) (read : Text → α) (valid : Text → Prop) :
    Prop where
  set_self : ∀ {known after value}, Given.set known switch value = .ok after →
    part after = read value ∧ valid value
  set_other : ∀ {known after found value}, Given.set known found value = .ok after →
    found ≠ switch → part after = part known
  raise : ∀ {known after found}, Given.raise known found = .ok after → part after = part known
  place : ∀ known run, part (Given.place known run) = part known
  leave : ∀ (known : Given) unrecognized, part { known with unrecognized } = part known

theorem holds_folders : Holds folders .folders Value.ofText fun _ => True where
  set_self h := by
    rcases set_eq_ok h with ⟨hswitch, -⟩ | ⟨-, rfl⟩ | ⟨hswitch, -⟩
    · cases hswitch
    · exact ⟨rfl, trivial⟩
    · cases hswitch
  set_other h hother := by
    rcases set_eq_ok h with ⟨-, rfl⟩ | ⟨hswitch, -⟩ | ⟨-, rfl, -⟩
    · rfl
    · exact absurd hswitch hother
    · rfl
  raise h := by rw [raise_eq_ok h]
  place known run := by
    obtain ⟨owner, imports, unrecognized, hplace⟩ := place_eq known run
    rw [hplace]
  leave _ _ := rfl

theorem holds_strategy : Holds strategy .strategy Strategy.ofName? fun name =>
    name = ['-', '-'] ∨ ∃ strategy, Strategy.ofName? name = some strategy where
  set_self h := by
    rcases set_eq_ok h with ⟨hswitch, -⟩ | ⟨hswitch, -⟩ | ⟨-, rfl, hvalid⟩
    · cases hswitch
    · cases hswitch
    · exact ⟨rfl, hvalid⟩
  set_other h hother := by
    rcases set_eq_ok h with ⟨-, rfl⟩ | ⟨-, rfl⟩ | ⟨hswitch, -⟩
    · rfl
    · rfl
    · exact absurd hswitch hother
  raise h := by rw [raise_eq_ok h]
  place known run := by
    obtain ⟨owner, imports, unrecognized, hplace⟩ := place_eq known run
    rw [hplace]
  leave _ _ := rfl

theorem getD_map_getLast?_cons (read : Text → α) (value : Text) (values : List Text) (default : α) :
    ((value :: values).getLast?.map read).getD default =
      (values.getLast?.map read).getD (read value) := by
  rw [List.getLast?_cons]
  cases values.getLast? <;> rfl

section Run

variable {part : Given → α} {read : Text → α} {valid : Text → Prop}
  (holds : Holds part switch read valid)

include holds

-- What is known of the values after a switch, if it is known of those of the words behind it.
theorem Holds.of_set {next : Given} {found : Switch} {values : List Text}
    (hset : known.set found value = .ok next)
    (h : part after = (values.getLast?.map read).getD (part next) ∧ ∀ value ∈ values, valid value) :
    let all := if found = switch then value :: values else values
    part after = (all.getLast?.map read).getD (part known) ∧ ∀ value ∈ all, valid value := by
  obtain ⟨hpart, hvalid⟩ := h
  by_cases hfound : found = switch
  · subst hfound
    obtain ⟨hread, hvalue⟩ := holds.set_self hset
    simp only [if_true, getD_map_getLast?_cons, List.forall_mem_cons]
    exact ⟨hread ▸ hpart, hvalue, hvalid⟩
  · simp only [if_neg hfound]
    exact ⟨holds.set_other hset hfound ▸ hpart, hvalid⟩

-- After all words the part holds the last value that they give to its switch, and every one that
-- they give is valid.
theorem Holds.consume (htakes : switch.takesValue = true) (h : known.consume words = .ok after) :
    part after = ((Word.valuesOf switch words).getLast?.map read).getD (part known) ∧
      ∀ value ∈ Word.valuesOf switch words, valid value := by
  fun_induction Given.consume known words with
  | case1 known =>
      cases h
      exact ⟨rfl, by simp [Word.valuesOf]⟩
  | case2 known written rest ih =>
      rw [← holds.leave known (known.unrecognized ++ [written])]
      exact ih h
  | case3 | case4 | case6 | case8 | case9 => cases h
  | case5 known found attached rest _ next hset ih => exact holds.of_set hset (ih h)
  | case7 known found _ value rest next hset ih => exact holds.of_set hset (ih h)
  | case10 known found rest hflag next hraise ih =>
      have hfound : found ≠ switch := fun hfound => hflag (hfound ▸ htakes)
      rw [Word.valuesOf_other hfound, ← holds.raise hraise]
      exact ih h
  | case11 known word rest hunknown _ hattached hnamed ih =>
      have hbare : word.isBare = true := by
        cases word with
        | plain written => rfl
        | dashes => rfl
        | unknown written => exact (hunknown written rfl).elim
        | named found attached =>
            cases attached with
            | none => exact (hnamed found rfl).elim
            | some attached => exact (hattached found attached rfl).elim
      rw [Word.valuesOf_bare switch hbare, ← Word.valuesOf_dropWhile_isBare,
        ← holds.place known (word :: rest.takeWhile Word.isBare)]
      exact ih h

end Run

end Given

-- Of accepted arguments, the folder names and the strategy are those that are given last.
theorem Arguments.given_of_ofTexts {texts : List Text} {arguments : Arguments}
    (h : Arguments.ofTexts texts = .ok arguments) :
    arguments.folders = ((valueFor? .folders texts).map Value.ofText).getD .unset ∧
    arguments.strategy = (valueFor? .strategy texts).bind Strategy.ofName? ∧
    ∀ name, valueFor? .strategy texts = some name →
      name = ['-', '-'] ∨ ∃ strategy, Strategy.ofName? name = some strategy := by
  unfold Arguments.ofTexts at h
  cases hwords : Word.ofTexts texts with
  | error misuse =>
      rw [hwords] at h
      cases h
  | ok words =>
      simp only [hwords] at h
      cases hknown : Given.consume {} words with
      | error stop =>
          rw [hknown] at h
          cases h
      | ok known =>
          simp only [hknown] at h
          obtain ⟨hfolders, -⟩ := Given.holds_folders.consume rfl hknown
          obtain ⟨hstrategy, hvalid⟩ := Given.holds_strategy.consume rfl hknown
          have hfinish := Given.finish_eq_ok h
          simp only [valueFor?, hwords]
          refine ⟨hfinish.1.trans hfolders, hfinish.2.trans ?_, ?_⟩
          · rw [hstrategy]
            cases (Word.valuesOf .strategy words).getLast? <;> rfl
          · exact fun name hname => hvalid name (List.mem_of_getLast? hname)

end CommandLine

end WorkspaceImports
