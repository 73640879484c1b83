/-
# The texts of a listing of cloud backups

`xml_unescape`, `xml_text` and `find_open_tag` of `src-tauri/src/backup.rs`: how the names and the
keys that a WebDAV or an S3 server lists are read.  The five entities are put back one kind after
the other, and the ampersand is the third of them: what stands behind it then may be taken for one
of the last two.

* `xmlUnescape_xmlEscape` — what comes back of an escaped text, for every choice of the characters
  that may be escaped.
* `xmlText_render` — the text of an element of a block, behind elements of other names.
* `xmlUnescape_xmlEscape_iff` — exactly which texts come back unchanged.

A position in a text stands here for what follows it.
-/

import HelmSsh.Entities
import HelmSsh.Text
import HelmSsh.Trim
import HelmSsh.BlankWords
import Mathlib.Data.List.Infix
import Mathlib.Data.List.TakeWhile

namespace HelmSsh
namespace Vault
namespace XmlText

open Entities

/-! ### Escaping -/

/-- The entities that XML defines. -/
def entities : Table Char where
  sign := '&'
  names := [('<', ['l', 't', ';']), ('>', ['g', 't', ';']), ('&', ['a', 'm', 'p', ';']),
    ('"', ['q', 'u', 'o', 't', ';']), ('\'', ['a', 'p', 'o', 's', ';'])]
  fresh := by decide
  apart := by decide
  plain := by decide

/-- The escaping of a text: `&` and `<` are always escaped, and of the others those that the server
chooses to escape. -/
def xmlEscape (chosen : Char → Bool) (text : List Char) : List Char :=
  entities.coded (fun c => c = '&' || c = '<' || chosen c) text

/-- `xml_unescape`. -/
def xmlUnescape (value : List Char) : List Char :=
  let value := replace ['&', 'l', 't', ';'] ['<'] value
  let value := replace ['&', 'g', 't', ';'] ['>'] value
  let value := replace ['&', 'a', 'm', 'p', ';'] ['&'] value
  let value := replace ['&', 'q', 'u', 'o', 't', ';'] ['"'] value
  replace ['&', 'a', 'p', 'o', 's', ';'] ['\''] value

/-- While `&` is escaped, the entities of one character are put back and nothing else. -/
theorem replace_escaped (p : Char → Bool) {k : Char} {name : List Char}
    (hk : entities.names.lookup k = some name) (hp : p '&' = true) (text : List Char) :
    replace ('&' :: name) [k] (entities.coded p text)
      = entities.coded (Function.update p k false) text := by
  have hsign : entities.code p '&' ≠ ['&'] := by
    have hamp : entities.names.lookup '&' = some ['a', 'm', 'p', ';'] := rfl
    rw [Table.code_on hamp hp]
    simp
  exact Table.replace_coded hk hsign text

/-- **What comes back of an escaped text**: the text, in which the entities of the two quotes were
put back once more. -/
theorem xmlUnescape_xmlEscape (chosen : Char → Bool) (text : List Char) :
    xmlUnescape (xmlEscape chosen text)
      = replace ['&', 'a', 'p', 'o', 's', ';'] ['\'']
          (replace ['&', 'q', 'u', 'o', 't', ';'] ['"'] text) := by
  let on (c : Char) : Bool := c = '&' || c = '<' || chosen c
  have hlt := replace_escaped on (k := '<') rfl rfl text
  have hgt := replace_escaped (Function.update on '<' false) (k := '>') rfl rfl text
  have hamp := replace_escaped (Function.update (Function.update on '<' false) '>' false)
    (k := '&') rfl rfl text
  generalize hon : Function.update
    (Function.update (Function.update on '<' false) '>' false) '&' false
    = on' at hamp
  have hsign : entities.code on' '&' = ['&'] := Table.code_off (hon ▸ rfl)
  have hname : entities.names.lookup '"' = some ['q', 'u', 'o', 't', ';'] := rfl
  have hquot := Table.replace_coded_raw hname hsign text
  generalize hon' : Function.update on' '"' false = on'' at hquot
  have hsign' : entities.code on'' '&' = ['&'] := Table.code_off (hon' ▸ hon ▸ rfl)
  have hname' : entities.names.lookup '\'' = some ['a', 'p', 'o', 's', ';'] := rfl
  have hapos := Table.replace_coded_raw hname' hsign'
    (replace ['&', 'q', 'u', 'o', 't', ';'] ['"'] text)
  have hoff : ∀ e ∈ entities.names, Function.update on'' '\'' false e.1 = false := by
    subst hon' hon
    simp [entities, Function.update_apply]
  rw [Table.coded_off hoff] at hapos
  calc xmlUnescape (xmlEscape chosen text)
      = replace ['&', 'a', 'p', 'o', 's', ';'] ['\'']
          (replace ['&', 'q', 'u', 'o', 't', ';'] ['"'] (entities.coded on' text)) := by
        rw [← hamp, ← hgt, ← hlt]
        rfl
    _ = replace ['&', 'a', 'p', 'o', 's', ';'] ['\'']
          (entities.coded on'' (replace ['&', 'q', 'u', 'o', 't', ';'] ['"'] text)) :=
        congrArg _ hquot
    _ = _ := hapos

/-! ### The text of an element -/

/-- `str::trim_end_matches` of a character. -/
def trimEndMatches (c : Char) (text : List Char) : List Char :=
  (text.reverse.dropWhile (· = c)).reverse

/-- `str::eq_ignore_ascii_case`. -/
def eqIgnoreAsciiCase (a b : List Char) : Bool :=
  a.map Char.toLower = b.map Char.toLower

/-- The name of a tag, of what stands between its brackets. -/
def rawName (tag : List Char) : List Char :=
  trimEndMatches '/' ((Words.words Text.isWhitespace tag).head?.getD [])

/-- The name without what stands in front of its last colon. -/
def localPart (raw : List Char) : List Char :=
  (raw.reverse.takeWhile (· ≠ ':')).reverse

/-- `find_open_tag`: the tag with what follows it, its name, and what follows its bracket. -/
def findOpenTag (localName : List Char) : List Char → Option (List Char × List Char × List Char)
  | [] => none
  | c :: rest =>
    if c ≠ '<' then
      findOpenTag localName rest
    else if rest.head? = some '/' || rest.head? = some '?' then
      findOpenTag localName rest
    else if '>' ∈ rest then
      let raw := rawName (rest.takeWhile (· ≠ '>'))
      let body := (rest.dropWhile (· ≠ '>')).tail
      if eqIgnoreAsciiCase (localPart raw) localName then
        some (c :: rest, raw, body)
      else
        findOpenTag localName body
    else
      none
termination_by input => input.length
decreasing_by
  · exact Nat.lt_succ_self _
  · exact Nat.lt_succ_self _
  · have hbody := (List.dropWhile_suffix (· ≠ '>') (l := rest)).length_le
    rw [List.length_tail, List.length_cons]
    omega

/-- What stands in front of the next `</`. -/
def untilClose : List Char → Option (List Char)
  | [] => none
  | c :: rest =>
    if c = '<' ∧ rest.head? = some '/' then some [] else (untilClose rest).map (c :: ·)

/-- `xml_text`. -/
def xmlText (input localName : List Char) : Option (List Char) := do
  let (_, _, body) ← findOpenTag localName input
  let text ← untilClose body
  some (xmlUnescape (Trim.trim Text.isWhitespace text))

/-! ### What stands in a listing -/

/-- The name of a tag. -/
structure TagName where
  text : List Char
  nonempty : text ≠ []
  plain : ∀ c ∈ text,
    c ≠ '<' ∧ c ≠ '>' ∧ c ≠ '/' ∧ c ≠ '?' ∧ Text.isWhitespace c = false

/-- A part of the document. -/
inductive Markup
  | opening (name : TagName)
  | closing (name : TagName)
  | text (value : List Char)

/-- The tag that starts an element. -/
def TagName.opening (name : TagName) (rest : List Char) : List Char :=
  '<' :: (name.text ++ '>' :: rest)

/-- How a part is written, in front of the rest. -/
def Markup.render (chosen : Char → Bool) (rest : List Char) : Markup → List Char
  | .opening name => name.opening rest
  | .closing name => '<' :: '/' :: (name.text ++ '>' :: rest)
  | .text value => xmlEscape chosen value ++ rest

/-- The tag has the name that is asked for. -/
def TagName.isLocal (name : TagName) (localName : List Char) : Bool :=
  eqIgnoreAsciiCase (localPart name.text) localName

/-- **An element of a block**, of the name that is asked for, with what stands around it: no tag
of this name starts before it. -/
structure Listed where
  localName : List Char
  before : List Markup
  other : ∀ name, Markup.opening name ∈ before → name.isLocal localName = false
  name : TagName
  asked : name.isLocal localName = true
  after : List Char

/-- The block, with a text in the element. -/
def Listed.render (listed : Listed) (chosen : Char → Bool) (text : List Char) : List Char :=
  listed.before.foldr (fun markup rest => markup.render chosen rest)
    (listed.name.opening (xmlEscape chosen text ++ '<' :: '/' :: listed.after))

theorem findOpenTag_cons {c : Char} (hc : c ≠ '<') (localName rest : List Char) :
    findOpenTag localName (c :: rest) = findOpenTag localName rest := by
  rw [findOpenTag, if_pos hc]

theorem findOpenTag_append {part : List Char} (hpart : '<' ∉ part) (localName rest : List Char) :
    findOpenTag localName (part ++ rest) = findOpenTag localName rest := by
  induction part with
  | nil => rfl
  | cons c part ih =>
    have hc : c ≠ '<' := fun heq => hpart (heq ▸ List.mem_cons_self)
    rw [List.cons_append, findOpenTag_cons hc, ih fun h => hpart (List.mem_cons_of_mem c h)]

theorem findOpenTag_closing (name : TagName) (localName rest : List Char) :
    findOpenTag localName ('<' :: '/' :: (name.text ++ '>' :: rest)) =
      findOpenTag localName rest := by
  have hname : '<' ∉ name.text := fun h => (name.plain _ h).1 rfl
  rw [findOpenTag, if_neg (by simp), if_pos (by simp), findOpenTag_cons (by decide),
    findOpenTag_append hname, findOpenTag_cons (by decide)]

theorem rawName_text (name : TagName) : rawName name.text = name.text := by
  have hwords := Words.words_solid name.nonempty fun c hc => (name.plain c hc).2.2.2.2
  have hslash : name.text.reverse.dropWhile (· = '/') = name.text.reverse := by
    refine List.dropWhile_eq_self_iff.mpr fun hlength => ?_
    have hmem := List.mem_reverse.mp (List.getElem_mem hlength)
    simpa using (name.plain _ hmem).2.2.1
  rw [rawName, hwords, trimEndMatches]
  change (name.text.reverse.dropWhile (· = '/')).reverse = _
  rw [hslash, List.reverse_reverse]

/-- **The tag that starts an element** is taken if its name is asked for, and skipped otherwise. -/
theorem findOpenTag_opening (name : TagName) (localName rest : List Char) :
    findOpenTag localName (name.opening rest)
      = if name.isLocal localName then
          some (name.opening rest, name.text, rest)
        else findOpenTag localName rest := by
  have hname : ∀ c ∈ name.text, decide (c ≠ '>') = true := fun c hc =>
    decide_eq_true (name.plain c hc).2.1
  have htake : (name.text ++ '>' :: rest).takeWhile (· ≠ '>') = name.text := by
    rw [List.takeWhile_append_of_pos hname, List.takeWhile_cons_of_neg (by decide), List.append_nil]
  have hdrop : (name.text ++ '>' :: rest).dropWhile (· ≠ '>') = '>' :: rest := by
    rw [List.dropWhile_append_of_pos hname, List.dropWhile_cons_of_neg (by decide)]
  have hhead : ¬ (decide ((name.text ++ '>' :: rest).head? = some '/')
      || decide ((name.text ++ '>' :: rest).head? = some '?')) = true := by
    obtain ⟨c, text, htext⟩ := List.exists_cons_of_ne_nil name.nonempty
    have hc := name.plain c (htext ▸ List.mem_cons_self)
    simp [htext, hc.2.2.1, hc.2.2.2.1]
  rw [TagName.opening, findOpenTag, if_neg (by simp), if_neg hhead, if_pos (by simp), htake, hdrop,
    rawName_text]
  rfl

theorem lt_notMem_xmlEscape (chosen : Char → Bool) (text : List Char) :
    '<' ∉ xmlEscape chosen text := by
  intro h
  obtain ⟨c, -, hc⟩ := List.mem_flatMap.mp h
  rcases entities.code_cases _ c with hcode | ⟨name, hlookup, hcode⟩
  · rw [hcode, List.mem_singleton] at hc
    subst hc
    have hname : entities.names.lookup '<' = some ['l', 't', ';'] := rfl
    rw [Table.code_on hname (by simp)] at hcode
    exact absurd hcode (by simp)
  · rw [hcode, List.mem_cons] at hc
    refine hc.elim (by decide) (entities.plain ('<', ['l', 't', ';']) (by decide) (c, name) ?_)
    exact Table.mem_of_lookup hlookup

/-- The text of an element ends where its tag is closed. -/
theorem untilClose_append {part : List Char} (hpart : '<' ∉ part) (rest : List Char) :
    untilClose (part ++ '<' :: '/' :: rest) = some part := by
  induction part with
  | nil => rw [List.nil_append, untilClose, if_pos ⟨rfl, rfl⟩]
  | cons c part ih =>
    have hc : c ≠ '<' := fun heq => hpart (heq ▸ List.mem_cons_self)
    rw [List.cons_append, untilClose, if_neg fun h => hc h.1,
      ih fun h => hpart (List.mem_cons_of_mem c h)]
    rfl

/-- **What stands before the element is skipped.** -/
theorem findOpenTag_render (listed : Listed) (chosen : Char → Bool) (text : List Char) :
    findOpenTag listed.localName (listed.render chosen text)
      = some (listed.name.opening (xmlEscape chosen text ++ '<' :: '/' :: listed.after),
          listed.name.text, xmlEscape chosen text ++ '<' :: '/' :: listed.after) := by
  have hother := listed.other
  rw [Listed.render]
  generalize listed.before = before at hother
  induction before with
  | nil => rw [List.foldr_nil, findOpenTag_opening, if_pos listed.asked]
  | cons markup before ih =>
    have ih := ih fun name hname => hother name (List.mem_cons_of_mem _ hname)
    rw [List.foldr_cons]
    cases markup with
    | opening name =>
      have hname := hother name List.mem_cons_self
      rw [Markup.render, findOpenTag_opening, if_neg (hname ▸ Bool.false_ne_true), ih]
    | closing name => rw [Markup.render, findOpenTag_closing, ih]
    | text value => rw [Markup.render, findOpenTag_append (lt_notMem_xmlEscape chosen value), ih]

theorem trim_xmlEscape (chosen : Char → Bool) (text : List Char) :
    Trim.trim Text.isWhitespace (xmlEscape chosen text)
      = xmlEscape chosen (Trim.trim Text.isWhitespace text) := by
  have hnames : ∀ e ∈ entities.names, Text.isWhitespace e.1 = false ∧
      ∀ d ∈ e.2, Text.isWhitespace d = false := by decide
  refine Trim.trim_flatMap (fun c hc => ?_) (fun c hc => ?_) text
  · rcases entities.code_cases _ c with hcode | ⟨name, hlookup, -⟩
    · exact hcode
    · exact absurd ((hnames _ (Table.mem_of_lookup hlookup)).1.symm.trans hc) Bool.false_ne_true
  · rcases entities.code_cases _ c with hcode | ⟨name, hlookup, hcode⟩
    · rw [hcode]
      exact ⟨List.cons_ne_nil _ _, fun d hd => List.mem_singleton.mp hd ▸ hc⟩
    · rw [hcode]
      refine ⟨List.cons_ne_nil _ _, List.forall_mem_cons.mpr ⟨by decide, ?_⟩⟩
      exact (hnames _ (Table.mem_of_lookup hlookup)).2

/-- **The text of an element**, as it is read. -/
theorem xmlText_render (listed : Listed) (chosen : Char → Bool) (text : List Char) :
    xmlText (listed.render chosen text) listed.localName
      = some (xmlUnescape (xmlEscape chosen (Trim.trim Text.isWhitespace text))) := by
  rw [xmlText, findOpenTag_render]
  simp only [Option.bind_eq_bind, Option.bind_some]
  rw [untilClose_append (lt_notMem_xmlEscape chosen text), Option.bind_some, trim_xmlEscape]

/-! ### What comes back unchanged -/

/-- The text has neither the entity of the double quote nor the one of the apostrophe in it. -/
def NoQuoteEntity (text : List Char) : Prop :=
  ¬ ['&', 'q', 'u', 'o', 't', ';'] <:+: text ∧ ¬ ['&', 'a', 'p', 'o', 's', ';'] <:+: text

/-- What comes back of an escaped text is not longer, and it is the text exactly without these. -/
theorem xmlUnescape_xmlEscape_eq (chosen : Char → Bool) (text : List Char) :
    (xmlUnescape (xmlEscape chosen text)).length ≤ text.length ∧
      (xmlUnescape (xmlEscape chosen text) = text ↔ NoQuoteEntity text) := by
  have hquot : ['"'].length ≤ ['q', 'u', 'o', 't', ';'].length := by decide
  have hapos : ['\''].length ≤ ['a', 'p', 'o', 's', ';'].length := by decide
  rw [xmlUnescape_xmlEscape]
  have hfirst := length_replace_le (x := '&') hquot text
  have hsecond := length_replace_le (x := '&') hapos
    (replace ['&', 'q', 'u', 'o', 't', ';'] ['"'] text)
  refine ⟨Nat.le_trans hsecond hfirst, fun h => ?_, fun h => ?_⟩
  · have hnone : ¬ ['&', 'q', 'u', 'o', 't', ';'] <:+: text := by
      intro hmem
      have hless := length_replace_lt hquot hmem
      rw [h] at hsecond
      exact absurd hless (Nat.not_lt.mpr hsecond)
    rw [replace_eq_self hnone] at h
    exact ⟨hnone, (replace_eq_self_iff hapos).mp h⟩
  · rw [replace_eq_self h.1, replace_eq_self h.2]

/-- **Which texts come back unchanged.**  An escaped text is put back by `xml_unescape` exactly
when it has neither of the two entities in it, and the text of an element is read as it was
exactly when it also has no blanks at its ends. -/
theorem xmlUnescape_xmlEscape_iff (chosen : Char → Bool) (text : List Char) :
    (xmlUnescape (xmlEscape chosen text) = text ↔ NoQuoteEntity text) ∧
      ∀ listed : Listed, xmlText (listed.render chosen text) listed.localName = some text ↔
        NoQuoteEntity text ∧ Trim.trim Text.isWhitespace text = text := by
  refine ⟨(xmlUnescape_xmlEscape_eq chosen text).2, fun listed => ?_⟩
  rw [xmlText_render, Option.some.injEq]
  obtain ⟨hlength, -⟩ := xmlUnescape_xmlEscape_eq chosen (Trim.trim Text.isWhitespace text)
  constructor
  · intro h
    have htrim : Trim.trim Text.isWhitespace text = text := by
      have hinfix := Trim.trim_infix Text.isWhitespace text
      refine hinfix.eq_of_length (Nat.le_antisymm hinfix.length_le ?_)
      rw [h] at hlength
      exact hlength
    rw [htrim] at h
    exact ⟨(xmlUnescape_xmlEscape_eq chosen text).2.mp h, htrim⟩
  · rintro ⟨hnone, htrim⟩
    rw [htrim]
    exact (xmlUnescape_xmlEscape_eq chosen text).2.mpr hnone

/-- The name of an entity, as a text, does not come back. -/
theorem xmlUnescape_xmlEscape_quot :
    ¬ ∀ text, xmlUnescape (xmlEscape (fun _ => true) text) = text := by
  intro h
  exact absurd (h ['&', 'q', 'u', 'o', 't', ';']) (by decide)

end XmlText
end Vault
end HelmSsh
