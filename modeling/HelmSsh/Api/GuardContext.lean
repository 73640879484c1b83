/-
# Commands stay blocked in a context

A blocked command may be put before or behind a separator and another command
(`Context.plug`).  What touches it there is part of its words (`Context.touched`): a single `&`
without a blank is no separator.  The words of the command with what touches it are words of the
line (`extends_touched`), and every rule that looks only for what is there goes on to apply
(`lasting_mono`).  Two rules of `check_dangerous_command`
(`src-tauri/src/api_server/guard.rs`) look at the rest of the line: `wipefs` without
arguments counts at its start only, and the redirection to a critical file is excused by an
appending one anywhere.  Exactly then the line is blocked, or when the context brings something
that a rule finds (`stays_blocked`); `context_unblocks` has lines that are not.
-/

import HelmSsh.Api.GuardText

namespace HelmSsh
namespace Api
namespace Guard

open Text (isWhitespace)

/-! ### What is found in a line -/

/-- The pattern has no separator, and no blank at its ends. -/
structure Solid (p : List Char) : Prop where
  nonempty : p ≠ []
  separators : ∀ c ∈ p, c ≠ '&' ∧ isSep c = false
  first : ∀ c ∈ p.head?, isWhitespace c = false
  last : ∀ c ∈ p.getLast?, isWhitespace c = false

instance (p : List Char) : Decidable (Solid p) :=
  decidable_of_iff (p ≠ [] ∧ (∀ c ∈ p, c ≠ '&' ∧ isSep c = false) ∧
      (∀ c ∈ p.head?, isWhitespace c = false) ∧ ∀ c ∈ p.getLast?, isWhitespace c = false)
    ⟨fun h => ⟨h.1, h.2.1, h.2.2.1, h.2.2.2⟩, fun h => ⟨h.nonempty, h.separators, h.first, h.last⟩⟩

section Infix

variable {p : List Char}

theorem Solid.cons_blank (hp : Solid p) {b : Char} (hb : isWhitespace b = true) (l : List Char) :
    p <:+: b :: l ↔ p <:+: l :=
  Words.infix_cons_of_head hp.nonempty fun h => by
    rw [hp.first b h] at hb
    cases hb

theorem Solid.concat_blank (hp : Solid p) {b : Char} (hb : isWhitespace b = true) (l : List Char) :
    p <:+: l ++ [b] ↔ p <:+: l :=
  Words.infix_concat_of_last hp.nonempty fun h => by
    rw [hp.last b h] at hb
    cases hb

theorem Solid.blanks (hp : Solid p) {front back : List Char} (l : List Char)
    (hfront : ∀ c ∈ front, isWhitespace c = true) (hback : ∀ c ∈ back, isWhitespace c = true) :
    p <:+: front ++ l ++ back ↔ p <:+: l := by
  induction back using List.reverseRecOn with
  | nil =>
    rw [List.append_nil]
    induction front with
    | nil => rfl
    | cons b front ih =>
      rw [List.cons_append, hp.cons_blank (hfront b List.mem_cons_self)]
      exact ih fun c hc => hfront c (List.mem_cons_of_mem b hc)
  | append_singleton back b ih =>
    rw [← List.append_assoc,
      hp.concat_blank (hback b (List.mem_append_right back (List.mem_singleton_self b)))]
    exact ih fun c hc => hback c (List.mem_append_left _ hc)

theorem Solid.append_spaced (hp : Solid p) {x : Char} (hx : x ∉ p) (A B : List Char) :
    p <:+: A ++ ' ' :: x :: ' ' :: B ↔ p <:+: A ∨ p <:+: B := by
  rw [List.append_cons, Words.infix_append_cons hx, hp.concat_blank (by decide),
    hp.cons_blank (by decide)]

theorem Solid.replaceChar (hp : Solid p) {x : Char} (hx : x ∉ p) (t : List Char) :
    p <:+: replaceChar x [' ', x, ' '] t ↔ p <:+: t := by
  suffices h : ∀ a, p <:+: a ++ Guard.replaceChar x [' ', x, ' '] t ↔ p <:+: a ++ t from h []
  induction t with
  | nil => exact fun a => Iff.rfl
  | cons c t ih =>
    intro a
    have hcons : Guard.replaceChar x [' ', x, ' '] (c :: t) =
        (if c = x then [' ', x, ' '] else [c]) ++ Guard.replaceChar x [' ', x, ' '] t :=
      List.flatMap_cons
    rw [hcons]
    split_ifs with hc
    · subst hc
      rw [Words.infix_append_cons hx]
      exact (hp.append_spaced hx a _).trans (or_congr_right (ih []))
    · have h := ih (a ++ [c])
      rwa [List.append_assoc, List.append_assoc] at h

theorem Solid.replacePair (hp : Solid p) {x : Char} (hx : x ∉ p) (t : List Char) :
    p <:+: replacePair x [' ', x, x, ' '] t ↔ p <:+: t := by
  suffices h : ∀ a, p <:+: a ++ Guard.replacePair x [' ', x, x, ' '] t ↔ p <:+: a ++ t from h []
  have hnil : ¬ p <:+: [] := fun h => hp.nonempty (List.eq_nil_of_infix_nil h)
  fun_induction Guard.replacePair x [' ', x, x, ' '] t with
  | case1 c d rest hpair ih =>
    intro a
    obtain ⟨rfl, rfl⟩ := hpair
    have hleft : a ++ ([' ', d, d, ' '] ++ Guard.replacePair d [' ', d, d, ' '] rest) =
        (a ++ [' ']) ++ d :: ([] ++ d :: ' ' :: Guard.replacePair d [' ', d, d, ' '] rest) := by
      simp
    have hright : a ++ d :: d :: rest = a ++ d :: ([] ++ d :: rest) := rfl
    rw [hleft, hright, Words.infix_append_cons hx, Words.infix_append_cons hx,
      Words.infix_append_cons hx, Words.infix_append_cons hx, hp.concat_blank (by decide),
      hp.cons_blank (by decide)]
    exact or_congr_right (or_congr_right (ih []))
  | case2 c d rest hpair ih =>
    intro a
    have h := ih (a ++ [c])
    rwa [List.append_assoc, List.append_assoc] at h
  | case3 rest hrest => exact fun a => Iff.rfl

/-- **The separators make no difference to what has none.** -/
theorem Solid.spaced (hp : Solid p) (t : List Char) : p <:+: spaced t ↔ p <:+: t := by
  have hsep : ∀ x, isSep x = true → x ∉ p := fun x hx hmem => by
    rw [(hp.separators x hmem).2] at hx
    cases hx
  have hamp : '&' ∉ p := fun hmem => (hp.separators '&' hmem).1 rfl
  unfold Guard.spaced
  exact (hp.replaceChar (hsep _ (by decide)) _).trans <|
    (hp.replaceChar (hsep _ (by decide)) _).trans <|
    (hp.replaceChar (hsep _ (by decide)) _).trans <|
    (hp.replaceChar (hsep _ (by decide)) _).trans <|
    (hp.replaceChar (hsep _ (by decide)) _).trans <|
    (hp.replaceChar (hsep _ (by decide)) _).trans <|
    (hp.replacePair (hsep _ (by decide)) _).trans (hp.replacePair hamp _)

/-- What is found in the line is found in the command. -/
theorem Solid.normalized (hp : Solid p) (U : CaseTable) (command : List Char) :
    p <:+: (lineOf U command).normalized ↔ p <:+: bare U command := by
  obtain ⟨front, back, heq, hfront, hback⟩ := exists_trim command
  generalize htext : (Text.trim (String.ofList command)).toList = text at heq
  have hline : (lineOf U command).normalized = Guard.spaced (bare U text) := by
    rw [lineOf, htext, Line.of]
  rw [hline, hp.spaced, heq, bare_append, bare_append, bare_blanks U hfront,
    bare_blanks U hback, hp.blanks _ hfront hback]

end Infix

/-! ### Lines with more words -/

/-- The words of the first line are words of the second, one after the other, and what is
found in the first is found in the second. -/
structure Extends (l l' : Line) (X Y : List (List Char)) : Prop where
  nonempty : l.parts ≠ []
  parts : l'.parts = X ++ l.parts ++ Y
  line : l = Line.of l.normalized
  line' : l' = Line.of l'.normalized
  normalized : ∀ p : String, Solid p.toList → contains l.normalized p = true →
    contains l'.normalized p = true

namespace Extends

variable {l l' : Line} {X Y : List (List Char)} {p : String}

theorem squeezed (h : Extends l l' X Y) : l.squeezed = Words.join ' ' l.parts := by
  rw [h.line]
  rfl

theorem squeezed' (h : Extends l l' X Y) : l'.squeezed = Words.join ' ' l'.parts := by
  rw [h.line']
  rfl

theorem word (h : Extends l l' X Y)
    (hp : p.toList ≠ [] ∧ ∀ c ∈ p.toList, isWhitespace c = false)
    (hin : Guard.contains l.normalized p = true) : ∃ w ∈ l.parts, p.toList <:+: w := by
  rw [h.line]
  exact Words.exists_word_of_infix hp.1 hp.2 (of_decide_eq_true hin)

theorem containsWord (h : Extends l l' X Y)
    (hp : p.toList ≠ [] ∧ ∀ c ∈ p.toList, isWhitespace c = false)
    (hin : Guard.contains l.normalized p = true) : Guard.contains l'.normalized p = true := by
  obtain ⟨w, hw, hpw⟩ := h.word hp hin
  have hw' : w ∈ l'.parts := by
    rw [h.parts]
    exact List.mem_append_left _ (List.mem_append_right _ hw)
  rw [h.line'] at hw'
  exact decide_eq_true (hpw.trans (Words.infix_of_mem_words hw'))

theorem contains (h : Extends l l' X Y) (hp : contains l.squeezed p = true) :
    contains l'.squeezed p = true := by
  rw [h.squeezed] at hp
  rw [h.squeezed', h.parts]
  exact decide_eq_true (Words.infix_join (of_decide_eq_true hp))

theorem startsWith (h : Extends l l' X Y) (hp : startsWith l.squeezed p = true) :
    (X = [] ∧ startsWith l'.squeezed p = true) ∨
      (X ≠ [] ∧ Guard.contains l'.squeezed (" " ++ p) = true) := by
  have hprefix' : p.toList <+: Words.join ' ' l.parts := h.squeezed ▸ of_decide_eq_true hp
  rw [h.squeezed', h.parts]
  by_cases hX : X = []
  · refine .inl ⟨hX, decide_eq_true ?_⟩
    rw [hX, List.nil_append]
    exact hprefix'.trans (Words.isPrefix_join l.parts Y)
  · refine .inr ⟨hX, decide_eq_true ?_⟩
    rw [String.toList_append]
    exact Words.prefix_join hX h.nonempty hprefix'

theorem endsWith (h : Extends l l' X Y) (hp : endsWith l.squeezed p = true) :
    (Y = [] ∧ endsWith l'.squeezed p = true) ∨ Guard.contains l'.squeezed (p ++ " ") = true := by
  have hsuffix : p.toList <:+ Words.join ' ' l.parts := h.squeezed ▸ of_decide_eq_true hp
  rw [h.squeezed', h.parts]
  by_cases hY : Y = []
  · refine .inl ⟨hY, decide_eq_true ?_⟩
    rw [hY, List.append_nil]
    exact hsuffix.trans (Words.join_suffix X l.parts)
  · refine .inr (decide_eq_true ?_)
    rw [String.toList_append]
    exact Words.suffix_join hY h.nonempty hsuffix

/-- The first word stays the first, or has a blank before it and, if it is not the last, one
behind it. -/
theorem head (h : Extends l l' X Y) (hp : l.parts.head? = some p.toList) :
    l'.parts.head? = some p.toList ∨ Guard.contains l'.squeezed (" " ++ p ++ " ") = true ∨
      (l.parts = [p.toList] ∧ Guard.endsWith l'.squeezed (" " ++ p) = true) := by
  obtain ⟨P, hP⟩ : ∃ P, l.parts = p.toList :: P := by
    cases hl : l.parts with
    | nil => exact absurd hl h.nonempty
    | cons w P =>
      rw [hl, List.head?_cons, Option.some.injEq] at hp
      exact ⟨P, by rw [hp]⟩
  have hone : Words.join ' ' [p.toList] = p.toList := List.intercalate_singleton ..
  rw [h.squeezed', h.parts, hP]
  by_cases hX : X = []
  · refine .inl ?_
    rw [hX]
    rfl
  · by_cases hPY : P ++ Y = []
    · obtain ⟨rfl, rfl⟩ := List.append_eq_nil_iff.mp hPY
      refine .inr (.inr ⟨rfl, decide_eq_true ?_⟩)
      rw [List.append_nil, Words.join_append hX (by simp), hone, String.toList_append]
      exact List.suffix_append _ _
    · refine .inr (.inl (decide_eq_true ?_))
      have hline : X ++ p.toList :: P ++ Y = X ++ ([p.toList] ++ (P ++ Y)) := by simp
      rw [hline, Words.join_append hX (by simp), Words.join_append (by simp) hPY, hone,
        String.toList_append, String.toList_append]
      exact ⟨Words.join ' ' X, Words.join ' ' (P ++ Y), by simp⟩

end Extends

/-! ### The rules in a context -/

theorem takeWhile_prefix_append {α : Type} (p : α → Bool) (l more : List α) :
    l.takeWhile p <+: (l ++ more).takeWhile p := by
  induction l with
  | nil => exact List.nil_prefix
  | cons a l ih =>
    rw [List.cons_append, List.takeWhile_cons, List.takeWhile_cons]
    split_ifs
    · exact List.cons_prefix_cons.mpr ⟨rfl, ih⟩
    · exact List.nil_prefix

theorem mem_operandsOf_cons {arg target : List Char} {args : List (List Char)}
    (harg : arg ≠ "--".toList) : target ∈ operandsOf (arg :: args) ↔
      (target = arg ∧ startsWith arg "-" = false) ∨ target ∈ operandsOf args := by
  have htake := List.takeWhile_cons_of_pos (l := args)
    (p := fun arg => decide (arg ≠ "--".toList)) (decide_eq_true harg)
  have hdrop := List.dropWhile_cons_of_pos (l := args)
    (p := fun arg => decide (arg ≠ "--".toList)) (decide_eq_true harg)
  rw [operandsOf, operandsOf, htake, hdrop, List.mem_append, List.mem_append, List.filter_cons]
  cases hdash : startsWith arg "-" with
  | true => simp
  | false =>
    rw [Bool.not_false, if_pos rfl, List.mem_cons, or_assoc]
    exact or_congr_left (and_iff_left rfl).symm

/-- More arguments take away no operand. -/
theorem operandsOf_append (args more : List (List Char)) :
    operandsOf args ⊆ operandsOf (args ++ more) := by
  induction args with
  | nil => exact List.nil_subset _
  | cons arg args ih =>
    intro target h
    rw [List.cons_append]
    by_cases hdashes : arg = "--".toList
    · have hstop : ∀ l, operandsOf (arg :: l) = (arg :: l).filter (· ≠ "--".toList) := by
        intro l
        rw [operandsOf, List.takeWhile_cons_of_neg (by simp [hdashes]),
          List.dropWhile_cons_of_neg (by simp [hdashes]), List.filter_nil, List.nil_append]
      rw [hstop] at h ⊢
      rw [← List.cons_append, List.filter_append]
      exact List.mem_append_left _ h
    · rw [mem_operandsOf_cons hdashes] at h ⊢
      exact h.imp_right fun hrest => ih hrest

/-- A dangerous `rm` is found in a longer line. -/
theorem hasDangerousRecursiveRm_mono {X P Y : List (List Char)}
    (h : hasDangerousRecursiveRm P = true) : hasDangerousRecursiveRm (X ++ P ++ Y) = true := by
  rw [hasDangerousRecursiveRm_iff] at h ⊢
  obtain ⟨before, rest, args, rfl, rfl, ⟨option, hoption, hreads⟩, target, htarget, hdangerous⟩ := h
  refine ⟨X ++ before, rest ++ Y, _, by simp, rfl, ?_⟩
  obtain ⟨more, hmore⟩ := takeWhile_prefix_append (fun word => !isSeparator word) rest Y
  rw [← hmore]
  exact ⟨⟨option, (takeWhile_prefix_append _ _ _).subset hoption, hreads⟩, target,
    operandsOf_append _ _ htarget, hdangerous⟩

section Rules

variable {l l' : Line} {X Y : List (List Char)}

theorem contains_of_endsWith {s : List Char} {p : String} (h : endsWith s p = true) :
    contains s p = true :=
  decide_eq_true (List.IsSuffix.isInfix (of_decide_eq_true h))

theorem Extends.any (h : Extends l l' X Y) {patterns : List String}
    (hp : patterns.any (Guard.contains l.squeezed) = true) :
    patterns.any (Guard.contains l'.squeezed) = true := by
  obtain ⟨p, hmem, hp⟩ := List.any_eq_true.mp hp
  exact List.any_eq_true.mpr ⟨p, hmem, h.contains hp⟩

theorem Extends.anyNormalized (h : Extends l l' X Y) {patterns : List String}
    (hsolid : ∀ p ∈ patterns, Solid p.toList)
    (hp : patterns.any (Guard.contains l.normalized) = true) :
    patterns.any (Guard.contains l'.normalized) = true := by
  obtain ⟨p, hmem, hp⟩ := List.any_eq_true.mp hp
  exact List.any_eq_true.mpr ⟨p, hmem, h.normalized p (hsolid p hmem) hp⟩

theorem mentionsFind_mono (h : Extends l l' X Y) (hr : mentionsFind l = true) :
    mentionsFind l' = true := by
  rw [mentionsFind, Bool.or_eq_true, List.contains_iff_mem] at hr ⊢
  refine hr.imp (fun hmem => ?_) h.contains
  rw [h.parts]
  exact List.mem_append_left _ (List.mem_append_right _ hmem)

theorem formatsDisk_mono (h : Extends l l' X Y) (hr : formatsDisk l = true) :
    formatsDisk l' = true := by
  rw [formatsDisk, Bool.and_eq_true, Bool.or_eq_true, Bool.or_eq_true] at hr ⊢
  refine ⟨?_, h.anyNormalized (by decide) hr.2⟩
  rcases hr.1 with (hdot | hstart) | hspace
  · exact .inl (.inl (h.contains hdot))
  · rcases h.startsWith hstart with ⟨-, hstart⟩ | ⟨-, hspace⟩
    · exact .inl (.inr hstart)
    · exact .inr hspace
  · exact .inr (h.contains hspace)

theorem shredsDevice_mono (h : Extends l l' X Y) (hr : shredsDevice l = true) :
    shredsDevice l' = true := by
  rw [shredsDevice, Bool.and_eq_true] at hr ⊢
  exact ⟨h.contains hr.1, h.anyNormalized (by decide) hr.2⟩

/-- The device is in another word than `dd`. -/
theorem ddToDevice_mono (h : Extends l l' X Y) (hr : ddToDevice l = true) :
    ddToDevice l' = true := by
  rw [ddToDevice, Bool.and_eq_true, Bool.or_eq_true, Bool.or_eq_true, Bool.or_eq_true,
    decide_eq_true_eq] at hr ⊢
  refine ⟨?_, h.anyNormalized (by decide) hr.2⟩
  rcases hr.1 with ((hhead | hspace) | hsemicolon) | hand
  · rcases h.head hhead with hhead | hspace | ⟨hone, -⟩
    · exact .inl (.inl (.inl hhead))
    · exact .inl (.inl (.inr hspace))
    · obtain ⟨device, hmem, hdevice⟩ := List.any_eq_true.mp hr.2
      have hdevices : ∀ device ∈ ["of=/dev/sd", "of=/dev/nvme", "of=/dev/vd", "of=/dev/hd"],
          (device.toList ≠ [] ∧ ∀ c ∈ device.toList, isWhitespace c = false) ∧
            ¬ device.toList <:+: "dd".toList := by decide
      obtain ⟨hword, hdd⟩ := hdevices device hmem
      obtain ⟨w, hw, hin⟩ := h.word hword hdevice
      rw [hone, List.mem_singleton] at hw
      exact absurd (hw ▸ hin) hdd
  · exact .inl (.inl (.inr (h.contains hspace)))
  · exact .inl (.inr (h.contains hsemicolon))
  · exact .inr (h.contains hand)

theorem redirectsToDevice_mono (h : Extends l l' X Y) (hr : redirectsToDevice l = true) :
    redirectsToDevice l' = true :=
  h.anyNormalized (by decide) hr

/-- An option or a directory at the end has a blank behind it when more words follow. -/
theorem changesSystemPermissions_mono (h : Extends l l' X Y)
    (hr : changesSystemPermissions l = true) : changesSystemPermissions l' = true := by
  simp only [changesSystemPermissions, Bool.and_eq_true, Bool.or_eq_true, List.any_eq_true] at hr ⊢
  obtain ⟨⟨hperm, hflag⟩, hdir⟩ := hr
  refine ⟨⟨hperm.imp h.contains h.contains, ?_⟩, ?_⟩
  · rcases hflag with (((((hr | hrf) | hfr) | hrec) | htab) | hend) | hend
    · simp only [h.contains hr, true_or]
    · simp only [h.contains hrf, true_or, or_true]
    · simp only [h.contains hfr, true_or, or_true]
    · simp only [h.contains hrec, true_or, or_true]
    · simp only [h.contains htab, true_or, or_true]
    · rcases h.endsWith hend with ⟨-, hend⟩ | hspace
      · simp only [hend, true_or, or_true]
      · exact .inl (.inl (.inl (.inl (.inl (.inl hspace)))))
    · rcases h.endsWith hend with ⟨-, hend⟩ | hspace
      · simp only [hend, or_true]
      · exact .inl (.inl (.inl (.inr hspace)))
  · rcases hdir with ⟨d, hd, (hspace | hend) | hsemicolon⟩ | hend
    · exact .inl ⟨d, hd, .inl (.inl (h.contains hspace))⟩
    · rcases h.endsWith hend with ⟨-, hend⟩ | hspace
      · exact .inl ⟨d, hd, .inl (.inr hend)⟩
      · exact .inl ⟨d, hd, .inl (.inl hspace)⟩
    · exact .inl ⟨d, hd, .inr (h.contains hsemicolon)⟩
    · rcases h.endsWith hend with ⟨-, hend⟩ | hspace
      · exact .inr hend
      · exact .inl ⟨" /", by simp [systemDirs], .inl (.inl hspace)⟩

theorem pipesDownloadToShell_mono (h : Extends l l' X Y) (hr : pipesDownloadToShell l = true) :
    pipesDownloadToShell l' = true := by
  rw [pipesDownloadToShell, Bool.and_eq_true] at hr ⊢
  exact ⟨h.any hr.1, h.any hr.2⟩

theorem containsPower_mono (h : Extends l l' X Y) (hr : containsPower l = true) :
    containsPower l' = true := by
  obtain ⟨tok, hmem, hr⟩ := List.any_eq_true.mp hr
  refine List.any_eq_true.mpr ⟨tok, hmem, ?_⟩
  simp only [Bool.or_eq_true] at hr ⊢
  rcases hr with (((((h1 | h2) | h3) | h4) | h5) | h6) | h7
  · simp only [h.contains h1, true_or]
  · simp only [h.contains h2, true_or, or_true]
  · simp only [h.contains h3, true_or, or_true]
  · simp only [h.contains h4, true_or, or_true]
  · rcases h.endsWith h5 with ⟨-, hend⟩ | hspace
    · simp only [hend, true_or, or_true]
    · exact .inl (.inl (.inl (.inl (.inl (.inl hspace)))))
  · simp only [h.contains h6, true_or, or_true]
  · simp only [h.contains h7, or_true]

theorem startsWithPower_mono (h : Extends l l' X Y) (hr : startsWithPower l = true) :
    startsWithPower l' = true ∨ containsPower l' = true := by
  obtain ⟨tok, hmem, hr⟩ := List.any_eq_true.mp hr
  have htokens : ∀ tok ∈ powerstateTokens, ([] : List Char) ≠ tok.toList := by decide
  have hne := htokens tok hmem
  have hhead : l.parts.head? = some tok.toList := by
    rw [decide_eq_true_eq] at hr
    cases hl : l.parts.head? with
    | none => exact absurd (by rw [← hr, hl]; rfl) hne
    | some w => rw [hl] at hr; exact congrArg some hr
  rcases h.head hhead with hhead | hspace | ⟨-, hend⟩
  · refine .inl (List.any_eq_true.mpr ⟨tok, hmem, ?_⟩)
    rw [hhead, decide_eq_true_eq]
    rfl
  · refine .inr (List.any_eq_true.mpr ⟨tok, hmem, ?_⟩)
    simp only [hspace, Bool.true_or]
  · refine .inr (List.any_eq_true.mpr ⟨tok, hmem, ?_⟩)
    simp only [hend, Bool.true_or, Bool.or_true]

/-- `init` and its level are found as one text. -/
theorem initPower_mono (h : Extends l l' X Y) (hr : initPower l = true) : initPower l' = true := by
  simp only [initPower, Bool.or_eq_true, Bool.and_eq_true, decide_eq_true_eq] at hr ⊢
  have hsquare : ∀ level : List Char, l.parts.head? = some "init".toList →
      l.parts[1]? = some level → "init ".toList ++ level <:+: l'.squeezed := by
    intro level hhead hlevel
    obtain ⟨P, hP⟩ : ∃ P, l.parts = ["init".toList, level] ++ P := by
      cases hl : l.parts with
      | nil => exact absurd hl h.nonempty
      | cons w P =>
        cases P with
        | nil => rw [hl] at hlevel; cases hlevel
        | cons v P =>
          rw [hl] at hhead hlevel
          exact ⟨P, by rw [Option.some.inj hhead, Option.some.inj hlevel]; rfl⟩
    have hin : "init ".toList ++ level <:+: Words.join ' ' l.parts := by
      rw [hP]
      have htwo : Words.join ' ' ["init".toList, level] = "init ".toList ++ level := by
        simp [Words.join]
      exact htwo ▸ ( Words.isPrefix_join _ P).isInfix
    rw [h.squeezed', h.parts]
    exact Words.infix_join hin
  rcases hr with (h0 | h6) | ⟨hhead, h0 | h6⟩
  · exact .inl (.inl (h.contains h0))
  · exact .inl (.inr (h.contains h6))
  · exact .inl (.inl (decide_eq_true (hsquare _ hhead h0)))
  · exact .inl (.inr (decide_eq_true (hsquare _ hhead h6)))

theorem forkBomb_mono (h : Extends l l' X Y) (hr : forkBomb l = true) : forkBomb l' = true := by
  rw [forkBomb, Bool.or_eq_true, Bool.or_eq_true] at hr ⊢
  exact hr.imp (Or.imp h.contains h.contains) (h.containsWord (by decide))

/-- The rules that look only for what is there. -/
def lasting (strict : Bool) : List (Line → Bool) :=
  [forkBomb, fun l => contains l.normalized "--no-preserve-root",
    fun l => hasDangerousRecursiveRm l.parts,
    fun l => strict && mentionsFind l &&
      (contains l.squeezed " -delete" || endsWith l.squeezed " -delete"),
    fun l => strict && mentionsFind l &&
      (contains l.squeezed "-exec rm" || contains l.squeezed "-execdir rm"),
    formatsDisk, fun l => contains l.squeezed "wipefs ", shredsDevice, ddToDevice,
    redirectsToDevice, changesSystemPermissions, fun l => strict && pipesDownloadToShell l,
    fun l => strict && startsWithPower l, fun l => strict && containsPower l,
    fun l => strict && initPower l]

/-- **A rule that looks for what is there applies to the longer line**, or another one does. -/
theorem lasting_mono {strict : Bool} (h : Extends l l' X Y)
    (hr : ∃ rule ∈ lasting strict, rule l = true) : ∃ rule ∈ rules strict, rule.1 l' = true := by
  suffices hany : (rules strict).any fun rule => rule.1 l' from List.any_eq_true.mp hany
  have hr : (lasting strict).any fun rule => rule l := List.any_eq_true.mpr hr
  simp only [lasting, List.any_cons, List.any_nil, Bool.or_false, Bool.or_eq_true,
    Bool.and_eq_true] at hr
  simp only [rules, List.any_cons, List.any_nil, Bool.or_false, Bool.or_eq_true, Bool.and_eq_true]
  rcases hr with hr | hr | hr | ⟨⟨hstrict, hfind⟩, hdelete⟩ | ⟨⟨hstrict, hfind⟩, hexec⟩ | hr | hr |
    hr | hr | hr | hr | ⟨hstrict, hr⟩ | ⟨hstrict, hr⟩ | ⟨hstrict, hr⟩ | ⟨hstrict, hr⟩
  · simp only [forkBomb_mono h hr, true_or]
  · simp only [h.containsWord (by decide) hr, true_or, or_true]
  · have hrm : hasDangerousRecursiveRm l'.parts = true :=
      h.parts ▸ hasDangerousRecursiveRm_mono hr
    simp only [hrm, true_or, or_true]
  · have hdelete : contains l'.squeezed " -delete" = true :=
      h.contains (hdelete.elim id contains_of_endsWith)
    simp only [hstrict, mentionsFind_mono h hfind, hdelete, true_or, or_true, and_self]
  · have hexec := hexec.imp h.contains h.contains
    simp only [hstrict, mentionsFind_mono h hfind, hexec, true_or, or_true, and_self]
  · simp only [formatsDisk_mono h hr, true_or, or_true]
  · have hwipes : wipes l' = true := by rw [wipes, h.contains hr, Bool.true_or]
    simp only [hwipes, true_or, or_true]
  · simp only [shredsDevice_mono h hr, true_or, or_true]
  · simp only [ddToDevice_mono h hr, true_or, or_true]
  · simp only [redirectsToDevice_mono h hr, true_or, or_true]
  · simp only [changesSystemPermissions_mono h hr, true_or, or_true]
  · simp only [hstrict, pipesDownloadToShell_mono h hr, true_or, or_true, and_self]
  · rcases startsWithPower_mono h hr with hr | hr <;>
      simp only [hstrict, hr, true_or, or_true, and_self]
  · simp only [hstrict, containsPower_mono h hr, true_or, or_true, and_self]
  · simp only [hstrict, initPower_mono h hr, true_or, or_true, and_self]

end Rules

/-! ### Contexts -/

/-- The separators of the shell. -/
inductive Op
  | semicolon
  | and
  | or
  | pipe
  | background
  | newline
  deriving DecidableEq

def Op.text : Op → List Char
  | .semicolon => ";".toList
  | .and => "&&".toList
  | .or => "||".toList
  | .pipe => "|".toList
  | .background => "&".toList
  | .newline => "\n".toList

/-- Another command before or behind, a separator and the blanks on its two sides. -/
structure Context where
  op : Op
  left : List Char
  right : List Char
  left_blank : ∀ c ∈ left, isWhitespace c = true
  right_blank : ∀ c ∈ right, isWhitespace c = true
  other : List Char
  /-- The command stands before the separator. -/
  first : Bool

namespace Context

def before (k : Context) : List Char :=
  if k.first then [] else k.other ++ k.left ++ k.op.text ++ k.right

def behind (k : Context) : List Char :=
  if k.first then k.left ++ k.op.text ++ k.right ++ k.other else []

/-- The line with the command in the context. -/
def plug (k : Context) (command : List Char) : List Char :=
  k.before ++ command ++ k.behind

/-- The command with what touches it: what stands next to it up to white space or one of
`;|(){}`. -/
def touched (k : Context) (command : List Char) : List Char :=
  (k.before.reverse.takeWhile fun c => !apart c).reverse ++ command ++
    k.behind.takeWhile fun c => !apart c

end Context

theorem lineOf_eq (U : CaseTable) (command : List Char) :
    lineOf U command = Line.of (lineOf U command).normalized := by
  unfold lineOf
  generalize spaced _ = normalized
  rfl

variable {strict : Bool} {command : List Char} {U : CaseTable}

/-- What is found in the text of a command is found in that of a line with it. -/
theorem contains_normalized {before behind : List Char} {p : String}
    (hp : Solid p.toList) (hin : contains (lineOf U command).normalized p = true) :
    contains (lineOf U (before ++ command ++ behind)).normalized p = true := by
  have hcommand := (hp.normalized U command).mp (of_decide_eq_true hin)
  refine decide_eq_true ((hp.normalized U _).mpr ?_)
  rw [bare_append, bare_append]
  exact hcommand.trans ⟨bare U before, bare U behind, rfl⟩

/-- White space and separators are kept as they are. -/
theorem bare_apart (U : CaseTable) {c : Char} (hc : apart c = true) : bare U [c] = [c] := by
  rw [apart, Bool.or_eq_true] at hc
  rcases hc with hblank | hsep
  · exact bare_blanks U (List.forall_mem_singleton.mpr hblank)
  · simp only [isSep, isBracket, Bool.or_eq_true, decide_eq_true_eq] at hsep
    rcases hsep with (rfl | rfl) | (((rfl | rfl) | rfl) | rfl) | rfl <;>
      · rw [bare, toLowercase_ascii (by decide)]
        decide

/-- The words behind a text that is empty or ends apart. -/
theorem lineWords_behind (U : CaseTable) {before : List Char} (text : List Char)
    (h : ∀ c ∈ before.getLast?, apart c = true) :
    lineWords (bare U (before ++ text)) = lineWords (bare U before) ++ lineWords (bare U text) := by
  rcases List.eq_nil_or_concat before with rfl | ⟨rest, c, rfl⟩
  · have hnil : lineWords (bare U []) = [] := (by decide : lineWords [] = [])
    rw [hnil, List.nil_append, List.nil_append]
  · rw [List.concat_eq_append] at h ⊢
    have hc : apart c = true := h c (List.getLast?_concat ..)
    rw [bare_append, bare_append, bare_apart U hc]
    refine lineWords_append_of_ends (endsApart_concat hc _) fun hpair => ?_
    rw [List.getLast?_concat] at hpair
    obtain rfl : c = '&' := Option.some.inj hpair.1
    exact absurd hc (by decide)

/-- The words before a text that is empty or starts apart. -/
theorem lineWords_before (U : CaseTable) {behind : List Char} (text : List Char)
    (h : ∀ c ∈ behind.head?, apart c = true) :
    lineWords (bare U (text ++ behind)) = lineWords (bare U text) ++ lineWords (bare U behind) := by
  cases behind with
  | nil =>
    have hnil : lineWords (bare U []) = [] := (by decide : lineWords [] = [])
    rw [hnil, List.append_nil, List.append_nil]
  | cons c rest =>
    have hc : apart c = true := h c rfl
    rw [bare_append, ← List.singleton_append, bare_append U [c], bare_apart U hc]
    refine lineWords_append_of_starts (startsApart_cons hc _) fun hpair => ?_
    obtain rfl : c = '&' := Option.some.inj hpair.2
    exact absurd hc (by decide)

theorem apart_dropWhile {c : Char} {s : List Char}
    (h : c ∈ (s.dropWhile fun c => !apart c).head?) : apart c = true := by
  have hnot := List.head?_dropWhile_not (fun c => !apart c) s
  rw [Option.mem_def.mp h] at hnot
  exact Bool.not_eq_false' _ ▸ hnot

/-- The line is the command with what touches it, between what does not. -/
theorem exists_plug (k : Context) (command : List Char) :
    ∃ front back, k.plug command = front ++ k.touched command ++ back ∧
      (∀ c ∈ front.getLast?, apart c = true) ∧ ∀ c ∈ back.head?, apart c = true := by
  refine ⟨(k.before.reverse.dropWhile fun c => !apart c).reverse,
    k.behind.dropWhile fun c => !apart c, ?_, fun c hc => ?_, fun c hc => apart_dropWhile hc⟩
  · have hbefore : k.before = (k.before.reverse.dropWhile fun c => !apart c).reverse ++
        (k.before.reverse.takeWhile fun c => !apart c).reverse := by
      rw [← List.reverse_append, List.takeWhile_append_dropWhile, List.reverse_reverse]
    have hbehind := List.takeWhile_append_dropWhile (p := fun c => !apart c) (l := k.behind)
    rw [Context.plug, Context.touched]
    nth_rewrite 1 [hbefore]
    nth_rewrite 1 [← hbehind]
    simp only [List.append_assoc]
  · rw [List.getLast?_reverse] at hc
    exact apart_dropWhile hc

/-- **The words of the command with what touches it are words of the line.** -/
theorem extends_touched {k : Context} (hne : (lineOf U (k.touched command)).parts ≠ []) :
    ∃ X Y, Extends (lineOf U (k.touched command)) (lineOf U (k.plug command)) X Y := by
  obtain ⟨front, back, hplug, hfront, hback⟩ := exists_plug k command
  rw [hplug]
  refine ⟨lineWords (bare U front), lineWords (bare U back), hne, ?_, lineOf_eq U _, lineOf_eq U _,
    fun _ hp hin => contains_normalized hp hin⟩
  rw [lineOf_parts, lineOf_parts, List.append_assoc, lineWords_behind U _ hfront,
    lineWords_before U _ hback, List.append_assoc]

/-! ### Blocked in a context -/

theorem rules_blank {l : Line} (hline : l = Line.of l.normalized)
    (hparts : l.parts = []) {rule : (Line → Bool) × String} (hrule : rule ∈ rules strict) :
    rule.1 l = false := by
  have hwords : Words.words isWhitespace l.normalized = [] := by
    rw [hline] at hparts
    exact hparts
  have hsqueezed : l.squeezed = [] := by
    rw [hline, Line.of, hwords]
    rfl
  have hblank : ∀ p : String, (∃ c ∈ p.toList, isWhitespace c = false) →
      contains l.normalized p = contains [] p := by
    rintro p ⟨c, hc, hsolid⟩
    have hnil : contains [] p = false := decide_eq_false fun hin => by
      rw [List.eq_nil_of_infix_nil hin] at hc
      exact absurd hc List.not_mem_nil
    rw [hnil]
    refine decide_eq_false fun hin => ?_
    rw [Words.blank_of_words_eq_nil hwords (hin.subset hc)] at hsolid
    cases hsolid
  have hsame : ((rules strict).any fun rule => rule.1 l) =
      (rules strict).any fun rule => rule.1 { normalized := [], squeezed := [], parts := [] } := by
    simp (disch := decide) only [rules, forkBomb, mentionsFind, formatsDisk, wipes, shredsDevice,
      ddToDevice, redirectsToDevice, changesSystemPermissions, pipesDownloadToShell,
      startsWithPower, containsPower, initPower, criticalFiles, truncates, List.any_cons,
      List.any_nil, hparts, hsqueezed, hblank]
  have hnone : ((rules strict).any fun rule =>
      rule.1 { normalized := [], squeezed := [], parts := [] }) = false := by
    rw [List.any_eq_false]
    exact fun rule hrule => Bool.not_eq_true _ ▸ rules_nil hrule
  rw [hnone, List.any_eq_false] at hsame
  exact Bool.not_eq_true _ ▸ hsame rule hrule

/-- `wipefs` at the start. -/
def startsWithWipefs (l : Line) : Bool :=
  startsWith l.squeezed "wipefs"

/-- The redirections to the critical files, each with the one that excuses it. -/
def redirections : List (String × String) :=
  criticalFiles.flatMap fun cf => [("> " ++ cf, ">> " ++ cf), (">" ++ cf, ">>" ++ cf)]

/-- The redirection is in the line and nothing in it excuses it. -/
def redirects (r : String × String) (l : Line) : Bool :=
  contains l.normalized r.1 && !contains l.normalized r.2

/-- What the rules look for, one by one. -/
def tests (strict : Bool) : List (Line → Bool) :=
  lasting strict ++ startsWithWipefs :: redirections.map redirects

/-- Each of what the rules look for blocks the command. -/
theorem rules_apply {l : Line} :
    (∃ rule ∈ rules strict, rule.1 l = true) ↔ ∃ test ∈ tests strict, test l = true := by
  have hsame : ((rules strict).any fun rule => rule.1 l) =
      (tests strict).any fun test => test l := by
    simp only [rules, tests, lasting, wipes, startsWithWipefs, redirections, redirects,
      criticalFiles, truncates, List.any_cons, List.any_nil, Bool.or_false,
      List.flatMap_cons, List.flatMap_nil, List.cons_append, List.nil_append, List.map_cons,
      List.map_nil]
    ac_rfl
  simp only [← List.any_eq_true]
  rw [hsame]

theorem isSome_iff_tests :
    (checkDangerousCommand U (String.ofList command) strict).isSome = true ↔
      ∃ test ∈ tests strict, test (lineOf U command) = true :=
  checkDangerousCommand_isSome.trans rules_apply

theorem solid_redirection {r : String × String} (h : r ∈ redirections) : Solid r.1.toList := by
  have hall : ∀ r ∈ redirections, Solid r.1.toList := by decide
  exact hall r h

/-- The command, with what touches it, is blocked for what is there, for `wipefs` at the start of
it and of the line, or for a redirection that nothing in the line excuses; or the context brings
what is looked for. -/
def Context.Lasts (U : CaseTable) (strict : Bool) (k : Context) (command : List Char) : Prop :=
  (∃ rule ∈ lasting strict, rule (lineOf U (k.touched command)) = true) ∨
    (startsWithWipefs (lineOf U (k.touched command)) = true ∧
      startsWithWipefs (lineOf U (k.plug command)) = true) ∨
    (∃ r ∈ redirections, contains (lineOf U (k.touched command)).normalized r.1 = true ∧
      contains (lineOf U (k.plug command)).normalized r.2 = false) ∨
    ∃ test ∈ tests strict, test (lineOf U (k.plug command)) = true ∧
      test (lineOf U (k.touched command)) = false

theorem blocked_of_lasts {k : Context} (h : k.Lasts U strict command) :
    ∃ test ∈ tests strict, test (lineOf U (k.plug command)) = true := by
  have hwipefs : startsWithWipefs ∈ tests strict :=
    List.mem_append_right _ List.mem_cons_self
  rcases h with ⟨rule, hrule, happlies⟩ | ⟨-, hstart⟩ | ⟨r, hr, hin, hexcuse⟩ |
    ⟨test, htest, happlies, -⟩
  · have hne : (lineOf U (k.touched command)).parts ≠ [] := fun hparts => by
      obtain ⟨other, hother, hyes⟩ := rules_apply.mpr
        ⟨rule, List.mem_append_left (startsWithWipefs :: redirections.map redirects)
          hrule, happlies⟩
      rw [rules_blank (lineOf_eq U _) hparts hother] at hyes
      cases hyes
    obtain ⟨X, Y, hextends⟩ := extends_touched hne
    exact rules_apply.mp (lasting_mono hextends ⟨rule, hrule, happlies⟩)
  · exact ⟨_, hwipefs, hstart⟩
  · refine ⟨redirects r, List.mem_append_right _
      (List.mem_cons_of_mem _ (List.mem_map_of_mem hr)), ?_⟩
    have hline : contains (lineOf U (k.plug command)).normalized r.1 = true := by
      obtain ⟨front, back, hplug, -, -⟩ := exists_plug k command
      rw [hplug]
      exact contains_normalized (solid_redirection hr) hin
    rw [redirects, hline, hexcuse]
    rfl
  · exact ⟨test, htest, happlies⟩

theorem lasts_of_blocked {k : Context}
    (h : ∃ test ∈ tests strict, test (lineOf U (k.plug command)) = true) :
    k.Lasts U strict command := by
  obtain ⟨test, htest, hline⟩ := h
  cases htouched : test (lineOf U (k.touched command)) with
  | false => exact .inr (.inr (.inr ⟨test, htest, hline, htouched⟩))
  | true =>
    rcases List.mem_append.mp htest with hlasting | hother
    · exact .inl ⟨test, hlasting, htouched⟩
    · rcases List.mem_cons.mp hother with rfl | hredirects
      · exact .inr (.inl ⟨htouched, hline⟩)
      · obtain ⟨r, hr, rfl⟩ := List.mem_map.mp hredirects
        rw [redirects, Bool.and_eq_true, Bool.not_eq_true'] at htouched hline
        exact .inr (.inr (.inl ⟨r, hr, htouched.1, hline.2⟩))

/-- A context without blanks. -/
def Context.glued (op : Op) (other : String) (first : Bool) : Context where
  op := op
  left := []
  right := []
  left_blank := fun _ hc => absurd hc List.not_mem_nil
  right_blank := fun _ hc => absurd hc List.not_mem_nil
  other := other.toList
  first := first

/-- Contexts that unblock a command: an excuse for a truncation, `wipefs` behind another
command, and an `&` that touches the command. -/
def unblocking : List (Context × List Char) :=
  [(.glued .semicolon "echo ok >> /etc/passwd" true, "> /etc/passwd".toList),
    (.glued .semicolon "echo ok" false, "wipefs".toList),
    (.glued .background "echo ok" true, "rm -rf /".toList),
    (.glued .background "echo ok" false, "rm -rf /".toList)]

theorem unblocking_unblocks : ∀ kc ∈ unblocking, ∀ strict,
    (checkDangerousCommand exampleTable (String.ofList kc.2) strict).isSome = true ∧
      checkDangerousCommand exampleTable (String.ofList (kc.1.plug kc.2)) strict = none := by
  simp only [← Option.not_isSome_iff_eq_none, isSome_eq_any]
  decide +kernel

end Guard
end Api
end HelmSsh
