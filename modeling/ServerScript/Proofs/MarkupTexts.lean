import Mathlib.Data.List.Basic
import Mathlib.Tactic.Common
import ServerScript.Host.Encoding

/-! Texts in markup. What is written for a text holds no character with a meaning in markup, apart
from the ampersand of an entity, and the text can be read off it again: an entity that stands in the
text itself is written with one for its ampersand, so it is never taken for a written one. -/
namespace ServerScript.Encoding

variable {c d : Char} {cs ds rest : List Char}

/-- The characters with a meaning in markup and the entities written for them. -/
def entities : List (Char × String) :=
  [('&', "&amp;"), ('<', "&lt;"), ('>', "&gt;"), ('"', "&quot;")]

/-- Characters that markup shows as they are, apart from the entities among them. -/
structure Inert (cs : List Char) : Prop where
  noLess : '<' ∉ cs
  noGreater : '>' ∉ cs
  noQuote : '"' ∉ cs
  /-- Every ampersand begins an entity. -/
  entity : ∀ rest, '&' :: rest <:+ cs → ∃ e ∈ entities, e.2.toList <+: '&' :: rest

/-- The characters that are shown. What has a meaning in markup, and an ampersand that begins none
of the entities, is not read. -/
def shown? : List Char → Option (List Char)
  | [] => some []
  | '&' :: 'a' :: 'm' :: 'p' :: ';' :: rest => (shown? rest).map ('&' :: ·)
  | '&' :: 'l' :: 't' :: ';' :: rest => (shown? rest).map ('<' :: ·)
  | '&' :: 'g' :: 't' :: ';' :: rest => (shown? rest).map ('>' :: ·)
  | '&' :: 'q' :: 'u' :: 'o' :: 't' :: ';' :: rest => (shown? rest).map ('"' :: ·)
  | c :: rest => if c ∈ entities.map Prod.fst then none else (shown? rest).map (c :: ·)

def fromHtml? (markup : String) : Option String := (shown? markup.toList).map String.ofList

/-! ### One character -/

theorem htmlChar_of_entity : ∀ e ∈ entities, htmlChar e.1 = e.2.toList := by decide

theorem htmlChar_of_plain (plain : c ∉ entities.map Prod.fst) : htmlChar c = [c] := by
  unfold htmlChar
  split <;> first | rfl | exact absurd (by decide) plain

theorem htmlChar_cases (c : Char) :
    (∃ e ∈ entities, e.1 = c ∧ htmlChar c = e.2.toList) ∨
      c ∉ entities.map Prod.fst ∧ htmlChar c = [c] := by
  by_cases special : c ∈ entities.map Prod.fst
  · obtain ⟨e, member, rfl⟩ := List.mem_map.mp special
    exact .inl ⟨e, member, rfl, htmlChar_of_entity e member⟩
  · exact .inr ⟨special, htmlChar_of_plain special⟩

theorem shown?_of_plain (plain : c ∉ entities.map Prod.fst) (rest : List Char) :
    shown? (c :: rest) = (shown? rest).map (c :: ·) := by
  have other : c ≠ '&' := by
    rintro rfl
    exact plain (by decide)
  rw [shown?.eq_def]
  split <;> simp_all

theorem shown?_htmlChar_append (c : Char) (rest : List Char) :
    shown? (htmlChar c ++ rest) = (shown? rest).map (c :: ·) := by
  rcases htmlChar_cases c with ⟨e, member, rfl, written⟩ | ⟨plain, written⟩
  · rw [written]
    simp only [entities, List.mem_cons, List.not_mem_nil, or_false] at member
    rcases member with rfl | rfl | rfl | rfl <;> rfl
  · rw [written]
    exact shown?_of_plain plain rest

/-! ### Texts -/

theorem shown?_flatMap (cs : List Char) : shown? (cs.flatMap htmlChar) = some cs := by
  induction cs with
  | nil => rfl
  | cons c cs ih => rw [List.flatMap_cons, shown?_htmlChar_append, ih, Option.map_some]

theorem eq_flatMap_of_shown? (shown : shown? cs = some ds) : cs = ds.flatMap htmlChar := by
  fun_induction shown? cs generalizing ds with
  | case1 =>
    cases shown
    rfl
  | case2 rest ih | case3 rest ih | case4 rest ih | case5 rest ih =>
    obtain ⟨ds, read, rfl⟩ := Option.map_eq_some_iff.mp shown
    rw [ih read]
    rfl
  | case6 => cases shown
  | case7 c rest _ _ _ _ plain ih =>
    obtain ⟨ds, read, rfl⟩ := Option.map_eq_some_iff.mp shown
    rw [ih read, List.flatMap_cons, htmlChar_of_plain plain, List.singleton_append]

theorem fromHtml?_eq_some_iff {markup text : String} :
    fromHtml? markup = some text ↔ markup = html text := by
  rw [fromHtml?, Option.map_eq_some_iff]
  constructor
  · rintro ⟨cs, shown, rfl⟩
    rw [html, String.toList_ofList, ← eq_flatMap_of_shown? shown, String.ofList_toList]
  · rintro rfl
    refine ⟨text.toList, ?_, String.ofList_toList⟩
    rw [html, String.toList_ofList, shown?_flatMap]

theorem html_append (a b : String) : html (a ++ b) = html a ++ html b := by
  rw [html, String.toList_append, List.flatMap_append, String.ofList_append, html, html]

/-! ### What is written is inert -/

theorem suffix_of_notMem (absent : c ∉ ds) (suffix : c :: rest <:+ ds ++ cs) :
    c :: rest <:+ cs := by
  induction ds with
  | nil => exact suffix
  | cons d ds ih =>
    rw [List.mem_cons, not_or] at absent
    rw [List.cons_append, List.suffix_cons_iff] at suffix
    rcases suffix with same | suffix
    · exact absurd (List.cons.inj same).1 absent.1
    · exact ih absent.2 suffix

theorem suffix_htmlChar_append (suffix : '&' :: rest <:+ htmlChar c ++ cs) :
    (∃ e ∈ entities, e.2.toList <+: '&' :: rest) ∨ '&' :: rest <:+ cs := by
  rcases htmlChar_cases c with ⟨e, member, -, written⟩ | ⟨plain, written⟩
  · have opens : ∀ e ∈ entities, e.2.toList = '&' :: e.2.toList.tail ∧ '&' ∉ e.2.toList.tail := by
      decide
    obtain ⟨ampersand, once⟩ := opens e member
    rw [written, ampersand, List.cons_append, List.suffix_cons_iff] at suffix
    refine suffix.imp (fun same => ⟨e, member, cs, ?_⟩) (suffix_of_notMem once)
    rw [same, ← List.cons_append, ← ampersand]
  · rw [written] at suffix
    refine .inr (suffix_of_notMem (fun same => plain ?_) suffix)
    rw [← List.mem_singleton.mp same]
    decide

theorem Inert.of_suffix (inert : Inert cs) (suffix : ds <:+ cs) : Inert ds where
  noLess member := inert.noLess (suffix.mem member)
  noGreater member := inert.noGreater (suffix.mem member)
  noQuote member := inert.noQuote (suffix.mem member)
  entity rest here := inert.entity rest (here.trans suffix)

theorem notMem_flatMap_htmlChar (special : d ∈ ['<', '>', '"']) : d ∉ cs.flatMap htmlChar := by
  intro member
  obtain ⟨c, -, member⟩ := List.mem_flatMap.mp member
  rcases htmlChar_cases c with ⟨e, entity, -, written⟩ | ⟨plain, written⟩
  · have all : ∀ e ∈ entities, e.2.toList.all (· ∉ ['<', '>', '"']) = true := by decide
    rw [written] at member
    exact of_decide_eq_true (List.all_eq_true.mp (all e entity) d member) special
  · rw [written, List.mem_singleton] at member
    exact plain (member ▸ List.mem_cons_of_mem '&' special)

theorem inert_flatMap (cs : List Char) : Inert (cs.flatMap htmlChar) where
  noLess := notMem_flatMap_htmlChar (by decide)
  noGreater := notMem_flatMap_htmlChar (by decide)
  noQuote := notMem_flatMap_htmlChar (by decide)
  entity := by
    induction cs with
    | nil => exact fun rest suffix => absurd (List.suffix_nil.mp suffix) (List.cons_ne_nil _ _)
    | cons c cs ih => exact fun rest suffix => (suffix_htmlChar_append suffix).elim id (ih rest)

theorem htmlChar_ne_nil (c : Char) : htmlChar c ≠ [] := by
  rcases htmlChar_cases c with ⟨e, member, -, written⟩ | ⟨-, written⟩
  · rw [written]
    have all : ∀ e ∈ entities, e.2.toList ≠ [] := by decide
    exact all e member
  · rw [written]
    exact List.cons_ne_nil c []

theorem Inert.exists_htmlChar (inert : Inert (c :: rest)) :
    ∃ d tail, c :: rest = htmlChar d ++ tail := by
  by_cases ampersand : c = '&'
  · subst ampersand
    obtain ⟨e, member, tail, same⟩ := inert.entity rest List.suffix_rfl
    exact ⟨e.1, tail, by rw [htmlChar_of_entity e member, same]⟩
  · have first {d : Char} (absent : d ∉ c :: rest) : c ≠ d :=
      fun same => absent (same ▸ List.mem_cons_self)
    have plain : c ∉ entities.map Prod.fst := by
      simp [entities, ampersand, first inert.noLess, first inert.noGreater, first inert.noQuote]
    exact ⟨c, rest, by rw [htmlChar_of_plain plain, List.singleton_append]⟩

theorem Inert.exists_flatMap (inert : Inert cs) : ∃ ds : List Char, cs = ds.flatMap htmlChar := by
  -- On the length, since an entity takes several characters away at once.
  induction size : cs.length using Nat.strongRecOn generalizing cs with
  | ind n ih =>
    cases cs with
    | nil => exact ⟨[], rfl⟩
    | cons c rest =>
      obtain ⟨d, tail, parts⟩ := inert.exists_htmlChar
      have shorter : tail.length < n := by
        have positive := List.length_pos_of_ne_nil (htmlChar_ne_nil d)
        rw [← size, parts, List.length_append]
        omega
      have suffix : tail <:+ c :: rest := ⟨htmlChar d, parts.symm⟩
      obtain ⟨ds, written⟩ := ih tail.length shorter (inert.of_suffix suffix) rfl
      exact ⟨d :: ds, by rw [parts, written, List.flatMap_cons]⟩

/-- What is written in markup for a text is safe and tells the text: nothing in it has a meaning in
markup but ampersands that begin an entity, a text is written piece by piece, and it is read off
what was written. Every markup of this kind is written for a text. -/
theorem html_safe_and_lossless :
    (∀ text, Inert (html text).toList) ∧
    (∀ a b, html (a ++ b) = html a ++ html b) ∧
    (∀ markup text, fromHtml? markup = some text ↔ markup = html text) ∧
    Function.Injective html ∧
    ∀ markup : String, Inert markup.toList → ∃ text, markup = html text := by
  refine ⟨fun text => ?_, html_append, fun _ _ => fromHtml?_eq_some_iff, ?_, ?_⟩
  · rw [html, String.toList_ofList]
    exact inert_flatMap text.toList
  · intro a b same
    have back (text : String) : fromHtml? (html text) = some text := fromHtml?_eq_some_iff.mpr rfl
    exact Option.some.inj ((back a).symm.trans (same ▸ back b))
  · intro markup inert
    obtain ⟨ds, written⟩ := inert.exists_flatMap
    refine ⟨String.ofList ds, ?_⟩
    rw [html, String.toList_ofList, ← written, String.ofList_toList]

theorem entity_in_text_told_apart :
    html "&lt;<" = "&amp;lt;&lt;" ∧ Inert "&amp;lt;&lt;".toList ∧
      fromHtml? "&amp;lt;&lt;" = some "&lt;<" ∧ ∃ text, "&amp;lt;&lt;" = html text := by
  obtain ⟨safe, -, read, -, exists_text⟩ := html_safe_and_lossless
  have written : html "&lt;<" = "&amp;lt;&lt;" := by decide
  have inert : Inert "&amp;lt;&lt;".toList := written ▸ safe "&lt;<"
  exact ⟨written, inert, (read _ _).mpr written.symm, exists_text _ inert⟩

end ServerScript.Encoding
