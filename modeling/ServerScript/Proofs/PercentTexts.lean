import Mathlib.Data.List.Basic
import Mathlib.Tactic.Common
import ServerScript.Host.Encoding
import ServerScript.Number.Numeral

/-! Texts in queries and paths. A byte that is not shown is written as a percent sign and two
capital hexadecimal digits, so what is written stays within the characters that are shown there. A
query also writes its percent and plus signs that way, and a form tells the text; a path leaves its
percent signs alone, so writing it once more changes nothing. -/
namespace ServerScript.Encoding

open Number (digitValue)

variable {shown : Char → Bool} {c d : Char} {cs : List Char}

def hexDigits : List Char := "0123456789ABCDEF".toList

/-- The characters of a query apart from letters and digits. -/
def queryMarks : List Char := ['-', '_', '.', '+', '%']

/-- The visible ASCII characters that a path does not show. -/
def hiddenInPath : List Char := ['"', '#', '<', '>', '`', '\x7b', '\x7d']

/-- The bytes of a form. A plus sign is a blank, a percent sign with two hexadecimal digits is the
byte that they denote, and any other character stands for its UTF-8 form. -/
def formBytes : List Char → List UInt8
  | [] => []
  | '+' :: rest => 0x20 :: formBytes rest
  | '%' :: high :: low :: rest =>
    if digitValue high < 16 ∧ digitValue low < 16 then
      UInt8.ofNat (16 * digitValue high + digitValue low) :: formBytes rest
    else 0x25 :: formBytes (high :: low :: rest)
  | c :: rest => String.utf8EncodeChar c ++ formBytes rest

/-- The text of a form, if its bytes are the UTF-8 form of one. -/
def fromForm? (form : String) : Option String :=
  String.fromUTF8? (formBytes form.toList).toByteArray

/-- What is relied on of an encoder: a character that is not shown, or that is not ASCII, becomes
the bytes of its UTF-8 form, each written as a percent sign and two capital hexadecimal digits. -/
def Encodes (encode : (Char → Bool) → String → String) : Prop :=
  ∀ shown text, (encode shown text).toList = text.toList.flatMap fun c =>
    if shown c ∧ c.toNat < 0x80 then [c]
    else (String.utf8EncodeChar c).flatMap fun byte =>
      ['%', hexDigits[byte.toNat / 16]!, hexDigits[byte.toNat % 16]!]

def encodeChar (shown : Char → Bool) (c : Char) : List Char :=
  if shown c then [c] else percentChar c

/-! ### Bytes -/

theorem toList_loop (bytes : ByteArray) (i : Nat) (front : List UInt8) :
    ByteArray.toList.loop bytes i front = front.reverse ++ bytes.data.toList.drop i := by
  fun_induction ByteArray.toList.loop bytes i front with
  | case1 i front inside ih =>
    have inside : i < bytes.data.toList.length := inside
    have byte : bytes.get! i = bytes.data.toList[i] := getElem!_pos bytes.data i inside
    rw [ih, List.drop_eq_getElem_cons inside, List.reverse_cons, List.append_assoc, byte,
      List.singleton_append]
  | case2 i front outside =>
    rw [List.drop_eq_nil_of_le (Nat.le_of_not_lt outside), List.append_nil]

theorem toList_toByteArray (bytes : List UInt8) : bytes.toByteArray.toList = bytes := by
  rw [ByteArray.toList, toList_loop, List.data_toByteArray]
  rfl

theorem percentChar_eq (c : Char) : percentChar c = (String.utf8EncodeChar c).flatMap percent := by
  rw [percentChar, String.toUTF8_eq_toByteArray, String.toByteArray_singleton,
    List.utf8Encode_singleton, toList_toByteArray]

theorem hexDigit_spec : ∀ n < 16, hexDigit n = hexDigits[n]! ∧ digitValue (hexDigit n) = n := by
  decide

theorem percent_eq (byte : UInt8) :
    percent byte = ['%', hexDigits[byte.toNat / 16]!, hexDigits[byte.toNat % 16]!] := by
  have bound := byte.toNat_lt
  rw [percent, (hexDigit_spec _ (by omega)).1, (hexDigit_spec _ (by omega)).1]

theorem mem_percentChar (member : d ∈ percentChar c) : d = '%' ∨ d ∈ hexDigits := by
  rw [percentChar_eq] at member
  obtain ⟨byte, -, member⟩ := List.mem_flatMap.mp member
  have bound := byte.toNat_lt
  have digits : ∀ n < 16, hexDigits[n]! ∈ hexDigits := by decide
  rw [percent_eq, List.mem_cons, List.mem_cons, List.mem_singleton] at member
  rcases member with rfl | rfl | rfl
  · exact .inl rfl
  · exact .inr (digits _ (by omega))
  · exact .inr (digits _ (by omega))

theorem mem_encodeChar (member : d ∈ encodeChar shown c) :
    shown d = true ∨ d = '%' ∨ d ∈ hexDigits := by
  unfold encodeChar at member
  split at member
  · rename_i plain
    exact .inl (List.mem_singleton.mp member ▸ plain)
  · exact .inr (mem_percentChar member)

theorem Encodes.toList_eq {encode : (Char → Bool) → String → String} (encodes : Encodes encode)
    (ascii : ∀ c, shown c = true → c.toNat < 0x80) (text : String) :
    (encode shown text).toList = text.toList.flatMap (encodeChar shown) := by
  rw [encodes]
  congr 1
  funext c
  rw [encodeChar, percentChar_eq, funext percent_eq]
  by_cases plain : shown c = true
  · rw [if_pos ⟨plain, ascii c plain⟩, if_pos plain]
  · rw [if_neg fun both => plain both.1, if_neg plain]

theorem flatMap_encodeChar_eq_self (plain : ∀ c ∈ cs, shown c = true) :
    cs.flatMap (encodeChar shown) = cs := by
  induction cs with
  | nil => rfl
  | cons c cs ih =>
    obtain ⟨first, others⟩ := List.forall_mem_cons.mp plain
    rw [List.flatMap_cons, encodeChar, if_pos first, ih others, List.singleton_append]

/-! ### Queries -/

theorem queryChar_eq (c : Char) :
    queryChar c = if c = ' ' then ['+'] else encodeChar plainInQuery c := rfl

theorem formBytes_percent (byte : UInt8) (rest : List Char) :
    formBytes (percent byte ++ rest) = byte :: formBytes rest := by
  have bound := byte.toNat_lt
  have high := (hexDigit_spec (byte.toNat / 16) (by omega)).2
  have low := (hexDigit_spec (byte.toNat % 16) (by omega)).2
  rw [percent, List.cons_append, List.cons_append, List.singleton_append, formBytes, high, low,
    if_pos (by omega), Nat.div_add_mod, UInt8.ofNat_toNat]

theorem formBytes_flatMap_percent (bytes : List UInt8) (rest : List Char) :
    formBytes (bytes.flatMap percent ++ rest) = bytes ++ formBytes rest := by
  induction bytes with
  | nil => rfl
  | cons byte bytes ih =>
    rw [List.flatMap_cons, List.append_assoc, formBytes_percent, ih, List.cons_append]

theorem formBytes_of_ne (notPlus : c ≠ '+') (notPercent : c ≠ '%') (rest : List Char) :
    formBytes (c :: rest) = String.utf8EncodeChar c ++ formBytes rest := by
  rw [formBytes.eq_def]
  split <;> simp_all

theorem formBytes_queryChar (c : Char) (rest : List Char) :
    formBytes (queryChar c ++ rest) = String.utf8EncodeChar c ++ formBytes rest := by
  rw [queryChar_eq]
  split
  · rename_i blank
    rw [blank]
    rfl
  · unfold encodeChar
    split
    · rename_i plain
      refine formBytes_of_ne ?_ ?_ rest <;>
        · rintro rfl
          exact absurd plain (by decide)
    · rw [percentChar_eq, formBytes_flatMap_percent]

theorem formBytes_flatMap_queryChar (cs : List Char) :
    formBytes (cs.flatMap queryChar) = cs.flatMap String.utf8EncodeChar := by
  induction cs with
  | nil => rfl
  | cons c cs ih => rw [List.flatMap_cons, formBytes_queryChar, ih, List.flatMap_cons]

theorem fromForm?_query (text : String) : fromForm? (query text) = some text := by
  have bytes : (formBytes (query text).toList).toByteArray = text.toByteArray := by
    rw [query, String.toList_ofList, formBytes_flatMap_queryChar, ← List.utf8Encode,
      ← String.toByteArray_ofList, String.ofList_toList]
  rw [fromForm?, bytes, String.fromUTF8?, dif_pos text.isValidUTF8]
  rfl

theorem mem_queryChar (member : d ∈ queryChar c) : d.isAlphanum ∨ d ∈ queryMarks := by
  rw [queryChar_eq] at member
  split at member
  · rw [List.mem_singleton.mp member]
    exact .inr (by decide)
  · rcases mem_encodeChar member with plain | rfl | digit
    · simp only [plainInQuery, Bool.or_eq_true, decide_eq_true_eq] at plain
      rcases plain with ((letter | rfl) | rfl) | rfl
      · exact .inl letter
      all_goals exact .inr (by decide)
    · exact .inr (by decide)
    · have letters : hexDigits.all Char.isAlphanum = true := by decide
      exact .inl (List.all_eq_true.mp letters d digit)

theorem toList_query (text : String) :
    (query text).toList =
      ['+'].intercalate ((text.toList.splitOn ' ').map (·.flatMap (encodeChar plainInQuery))) := by
  rw [query, String.toList_ofList]
  induction text.toList with
  | nil => rfl
  | cons c cs ih =>
    obtain ⟨part, parts, split⟩ := List.exists_cons_of_ne_nil (List.splitOn_ne_nil ' ' cs)
    rw [List.flatMap_cons, ih, List.splitOn_cons_eq_if_modifyHead, split, queryChar_eq]
    by_cases blank : c = ' '
    · rw [if_pos blank, if_pos (beq_iff_eq.mpr blank), List.map_cons, List.map_cons, List.map_cons,
        List.intercalate_cons_cons]
      rfl
    · rw [if_neg blank, if_neg (mt beq_iff_eq.mp blank), List.modifyHead_cons, List.map_cons,
        List.map_cons, List.flatMap_cons]
      cases parts with
      | nil => simp only [List.map_nil, List.intercalate_singleton]
      | cons next parts =>
        simp only [List.map_cons, List.intercalate_cons_cons, List.append_assoc]

theorem ascii_of_plainInQuery (c : Char) (plain : plainInQuery c = true) : c.toNat < 0x80 := by
  simp only [plainInQuery, Bool.or_eq_true, decide_eq_true_eq] at plain
  rcases plain with ((letter | rfl) | rfl) | rfl
  · -- each of the three ranges ends below the bound
    have split : ((c.isUpper || c.isLower) || c.isDigit) = true := letter
    simp only [Bool.or_eq_true] at split
    rcases split with (upper | lower) | digit
    · have last : c.toNat ≤ 90 := (of_decide_eq_true upper).2
      exact Nat.lt_of_le_of_lt last (by decide)
    · have last : c.toNat ≤ 122 := of_decide_eq_true (Bool.and_eq_true_iff.mp lower).2
      exact Nat.lt_of_le_of_lt last (by decide)
    · have last : c.toNat ≤ 57 := of_decide_eq_true (Bool.and_eq_true_iff.mp digit).2
      exact Nat.lt_of_le_of_lt last (by decide)
  all_goals decide

theorem Encodes.query_eq {encode : (Char → Bool) → String → String} (encodes : Encodes encode)
    (text : String) :
    query text = "+".intercalate
      ((text.toList.splitOn ' ').map fun part => encode plainInQuery (String.ofList part)) := by
  have piece (part : List Char) : (encode plainInQuery (String.ofList part)).toList =
      part.flatMap (encodeChar plainInQuery) := by
    rw [encodes.toList_eq ascii_of_plainInQuery, String.toList_ofList]
  rw [← String.toList_inj, toList_query, String.toList_intercalate, List.map_map,
    ← funext piece]
  rfl

/-! ### Paths -/

theorem plainInPath_iff :
    plainInPath c = true ↔ 0x20 < c.toNat ∧ c.toNat < 0x7f ∧ c ∉ hiddenInPath := by
  simp [plainInPath, hiddenInPath, and_assoc]

theorem pathChar_eq : pathChar = encodeChar plainInPath := rfl

theorem Encodes.path_eq {encode : (Char → Bool) → String → String} (encodes : Encodes encode)
    (text : String) : path text = encode plainInPath text := by
  have ascii (c : Char) (plain : plainInPath c = true) : c.toNat < 0x80 :=
    Nat.lt_trans (plainInPath_iff.mp plain).2.1 (by decide)
  rw [path, pathChar_eq, ← encodes.toList_eq ascii, String.ofList_toList]

theorem plainInPath_of_mem_path (text : String) :
    ∀ c ∈ (path text).toList, plainInPath c = true := by
  intro c member
  rw [path, String.toList_ofList, pathChar_eq] at member
  obtain ⟨b, -, member⟩ := List.mem_flatMap.mp member
  rcases mem_encodeChar member with plain | rfl | digit
  · exact plain
  · decide
  · have all : hexDigits.all plainInPath = true := by decide
    exact List.all_eq_true.mp all c digit

theorem path_path (text : String) : path (path text) = path text := by
  rw [path, pathChar_eq, flatMap_encodeChar_eq_self (plainInPath_of_mem_path text),
    String.ofList_toList]

/-- What is written for a text in a query is safe there and tells the text; what is written in a
path is safe there, and the path is written the same way again. Both are what an encoder writes, the
query for the pieces between its blanks. -/
theorem url_encoding_safe_lossless_and_stable :
    (∀ text, ∀ c ∈ (query text).toList, c.isAlphanum ∨ c ∈ queryMarks) ∧
    (∀ text, fromForm? (query text) = some text) ∧ Function.Injective query ∧
    (∀ text, ∀ c ∈ (path text).toList, 0x20 < c.toNat ∧ c.toNat < 0x7f ∧ c ∉ hiddenInPath) ∧
    (∀ text, path (path text) = path text) ∧
    ∀ encode, Encodes encode → ∀ text, path text = encode plainInPath text ∧
      query text = "+".intercalate
        ((text.toList.splitOn ' ').map fun part => encode plainInQuery (String.ofList part)) := by
  refine ⟨fun text c member => ?_, fromForm?_query, fun a b same => ?_, fun text c member => ?_,
    path_path, fun encode encodes text => ⟨encodes.path_eq text, encodes.query_eq text⟩⟩
  · rw [query, String.toList_ofList] at member
    obtain ⟨b, -, member⟩ := List.mem_flatMap.mp member
    exact mem_queryChar member
  · exact Option.some.inj ((fromForm?_query a).symm.trans (same ▸ fromForm?_query b))
  · exact plainInPath_iff.mp (plainInPath_of_mem_path text c member)

def Encodes.sample (shown : Char → Bool) (text : String) : String :=
  String.ofList (text.toList.flatMap fun c =>
    if shown c ∧ c.toNat < 0x80 then [c] else (String.utf8EncodeChar c).flatMap percent)

theorem encodes_sample : Encodes Encodes.sample := by
  intro shown text
  rw [Encodes.sample, String.toList_ofList, funext percent_eq]

theorem blanks_and_plus_told_apart :
    Encodes Encodes.sample ∧ query "a  +é" = "a++%2B%C3%A9" ∧
      '%' ∈ (query "a  +é").toList ∧ '%' ∈ queryMarks ∧
      fromForm? "a++%2B%C3%A9" = some "a  +é" := by
  obtain ⟨safe, lossless, -, -, -, encoded⟩ := url_encoding_safe_lossless_and_stable
  have written : query "a  +é" = "a++%2B%C3%A9" :=
    (encoded Encodes.sample encodes_sample "a  +é").2.trans (by decide)
  have mark : '%' ∈ (query "a  +é").toList := by
    rw [written]
    decide
  exact ⟨encodes_sample, written, mark, (safe "a  +é" '%' mark).resolve_left (by decide),
    written ▸ lossless "a  +é"⟩

end ServerScript.Encoding
