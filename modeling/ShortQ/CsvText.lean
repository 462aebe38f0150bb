import ShortQ.Runes

/-! # CSV texts

What a `csv.Writer` writes with its defaults and what a `csv.Reader` with `TrimLeadingSpace`
reads, and that the second finds the cells of the first with CRLF read as LF. -/
namespace CsvText

open GoText
open Runes

/-! ## Writing -/

def startsWithSpace (field : Str) : Bool := (runes field).head?.any isSpace

def fieldNeedsQuotes (field : Str) : Bool :=
  field ≠ [] && (field = lit "\\." ||
    field.any (fun b => b = 10 || b = 13 || b = 34 || b = 44) || startsWithSpace field)

def doubled (field : Str) : Str := field.flatMap fun b => if b = 34 then [34, 34] else [b]

def quote (field : Str) : Str := [34] ++ doubled field ++ [34]

def writeField (field : Str) : Str := if fieldNeedsQuotes field then quote field else field

def writeRow (row : List Str) : Str := List.intercalate [44] (row.map writeField) ++ [10]

def write (rows : List (List Str)) : Str := rows.flatMap writeRow

/-! ## Reading -/

/-- A line that ends in CRLF ends in LF. -/
def crlf : Str → Str
  | 13 :: 10 :: rest => 10 :: crlf rest
  | b :: rest => b :: crlf rest
  | [] => []

/-- The lines of a text; a CR before the end of the file is dropped. -/
def lines : Str → Str
  | [13] => []
  | 13 :: 10 :: rest => 10 :: lines rest
  | b :: rest => b :: lines rest
  | [] => []

/-- The white space before a field; it ends with the line. -/
def trimLeading (s : Str) : Str :=
  bytesOf ((runes s).dropWhile fun r => isSpace r && r.value ≠ some 10)

/-- Up to the closing quote. -/
def quotedField : Str → Option (Str × Str)
  | 34 :: 34 :: rest => (quotedField rest).map fun (field, rest) => (34 :: field, rest)
  | 34 :: rest => some ([], rest)
  | b :: rest => (quotedField rest).map fun (field, rest) => (b :: field, rest)
  | [] => none

def plainByte (b : UInt8) : Bool := b ≠ 44 && b ≠ 10

/-- Up to the comma or the end of the line; a quote in it is an error. -/
def plainField (s : Str) : Option (Str × Str) :=
  if (s.takeWhile plainByte).contains 34 then none
  else some (s.takeWhile plainByte, s.dropWhile plainByte)

def readField (s : Str) : Option (Str × Str) :=
  match s with
  | 34 :: rest => quotedField rest
  | s => plainField s

def readRow : ℕ → Str → Option (List Str × Str)
  | 0, _ => none
  | n + 1, s =>
    (readField (trimLeading s)).bind fun (field, rest) =>
      match rest with
      | 44 :: rest => (readRow n rest).map fun (fields, rest) => (field :: fields, rest)
      | 10 :: rest => some ([field], rest)
      | [] => some ([field], [])
      | _ => none

/-- Empty lines are skipped. -/
def readRows : ℕ → Str → Option (List (List Str))
  | 0, _ => none
  | _, [] => some []
  | n + 1, 10 :: rest => readRows n rest
  | n + 1, s =>
    (readRow (s.length + 1) s).bind fun (row, rest) => (readRows n rest).map (row :: ·)

/-- Every record has as many fields as the first. -/
def sameWidth : List (List Str) → Bool
  | [] => true
  | row :: rest => rest.all fun r => r.length = row.length

/-- `ReadAll`. -/
def read (text : Str) : Option (List (List Str)) :=
  (readRows ((lines text).length + 1) (lines text)).filter sameWidth

/-! ## Line ends -/

theorem crlf_cons {b : UInt8} {rest : Str} (h : b = 13 → rest.head? ≠ some 10) :
    crlf (b :: rest) = b :: crlf rest := by
  rw [crlf]
  intro tail hb heq
  exact h hb (by rw [heq]; rfl)

theorem lines_cons {b : UInt8} {rest : Str} (h : b = 13 → rest.head? ≠ some 10 ∧ rest ≠ []) :
    lines (b :: rest) = b :: lines rest := by
  rw [lines]
  · intro hb heq
    exact (h hb).2 heq
  · intro tail hb heq
    exact (h hb).1 (by rw [heq]; rfl)

theorem lines_of_ne {b : UInt8} (h : b ≠ 13) (rest : Str) : lines (b :: rest) = b :: lines rest :=
  lines_cons fun heq => absurd heq h

theorem lines_append {s : Str} (h : (13 : UInt8) ∉ s) (t : Str) :
    lines (s ++ t) = s ++ lines t := by
  induction s with
  | nil => rfl
  | cons b s ih =>
    rw [List.mem_cons, not_or] at h
    rw [List.cons_append, lines_of_ne (Ne.symm h.1), ih h.2, List.cons_append]

/-- Induction along a text that `crlf` reads. -/
@[elab_as_elim]
theorem crlf_induction {P : Str → Prop} (nil : P [])
    (newline : ∀ rest, P rest → P (13 :: 10 :: rest))
    (other : ∀ b rest, (b = 13 → rest.head? ≠ some 10) → P rest → P (b :: rest)) (s : Str) :
    P s := by
  induction s using crlf.induct with
  | case1 rest ih => exact newline rest ih
  | case2 b rest hcases ih =>
    refine other b rest (fun hb hhead => ?_) ih
    obtain ⟨tail, rfl⟩ := List.head?_eq_some_iff.mp hhead
    exact hcases tail hb rfl
  | case3 => exact nil

theorem crlf_of_notMem {s : Str} (h : (13 : UInt8) ∉ s) : crlf s = s := by
  induction s with
  | nil => rfl
  | cons b s ih =>
    rw [List.mem_cons, not_or] at h
    rw [crlf_cons fun heq => absurd heq.symm h.1, ih h.2]

theorem doubled_cons (b : UInt8) (s : Str) :
    doubled (b :: s) = (if b = 34 then [34, 34] else [b]) ++ doubled s := rfl

theorem head_doubled (s t : Str) :
    (doubled s ++ 34 :: t).head? = some (s.head?.getD 34) := by
  cases s with
  | nil => rfl
  | cons b s =>
    by_cases hb : b = 34 <;> simp [doubled_cons, hb]

theorem lines_doubled (s t : Str) :
    lines (doubled s ++ 34 :: t) = doubled (crlf s) ++ 34 :: lines t := by
  induction s using crlf_induction with
  | nil =>
    change lines (34 :: t) = 34 :: lines t
    rw [lines_of_ne (by decide)]
  | newline rest ih =>
    rw [crlf]
    change lines (13 :: 10 :: (doubled rest ++ 34 :: t)) =
      10 :: (doubled (crlf rest) ++ 34 :: lines t)
    rw [lines, ih]
  | other b rest hrest ih =>
    rw [crlf_cons hrest, doubled_cons, doubled_cons, List.append_assoc, List.append_assoc]
    by_cases hb : b = 34
    · rw [if_pos hb]
      change lines (34 :: 34 :: (doubled rest ++ 34 :: t)) = _
      rw [lines_of_ne (by decide), lines_of_ne (by decide), ih]
      rfl
    · rw [if_neg hb]
      have hkeep : b = 13 → (doubled rest ++ 34 :: t).head? ≠ some 10 ∧
          doubled rest ++ 34 :: t ≠ [] := by
        intro h13
        refine ⟨?_, by simp⟩
        rw [head_doubled]
        have hhead := hrest h13
        cases h : rest.head? with
        | none => decide
        | some c =>
          rw [h] at hhead
          simpa using hhead
      change lines (b :: (doubled rest ++ 34 :: t)) = _
      rw [lines_cons hkeep, ih]
      rfl

/-- A field as it stands in the lines of the text. -/
def settled (field : Str) : Str := if fieldNeedsQuotes field then quote (crlf field) else field

theorem plain_of_unquoted {field : Str} (h : fieldNeedsQuotes field = false) :
    field = [] ∨ (field ≠ [] ∧ (∀ b ∈ field, b ≠ 10 ∧ b ≠ 13 ∧ b ≠ 34 ∧ b ≠ 44) ∧
      startsWithSpace field = false) := by
  by_cases hnil : field = []
  · exact Or.inl hnil
  · right
    simp only [fieldNeedsQuotes, ne_eq, hnil, not_false_eq_true, decide_true, Bool.true_and,
      Bool.or_eq_false_iff, List.any_eq_false, Bool.or_eq_true, decide_eq_true_eq] at h
    refine ⟨hnil, fun b hb => ?_, h.2⟩
    have := h.1.2 b hb
    tauto

theorem crlf_unquoted {field : Str} (h : fieldNeedsQuotes field = false) : crlf field = field := by
  refine crlf_of_notMem fun hmem => ?_
  rcases plain_of_unquoted h with rfl | ⟨-, hplain, -⟩
  · cases hmem
  · exact (hplain 13 hmem).2.1 rfl

theorem lines_writeField (field t : Str) :
    lines (writeField field ++ t) = settled field ++ lines t := by
  unfold writeField settled
  cases h : fieldNeedsQuotes field with
  | true =>
    change lines (34 :: (doubled field ++ [34] ++ t)) =
      34 :: (doubled (crlf field) ++ [34] ++ lines t)
    rw [lines_of_ne (by decide), List.append_assoc, List.append_assoc]
    exact congrArg (List.cons 34) (lines_doubled field t)
  | false =>
    refine lines_append (fun hmem => ?_) t
    rcases plain_of_unquoted h with rfl | ⟨-, hplain, -⟩
    · cases hmem
    · exact (hplain 13 hmem).2.1 rfl

/-- A row as it stands in the lines of the text. -/
def settledRow (row : List Str) : Str := List.intercalate [44] (row.map settled) ++ [10]

theorem lines_intercalate (row : List Str) (t : Str) :
    lines (List.intercalate [44] (row.map writeField) ++ 10 :: t) =
      List.intercalate [44] (row.map settled) ++ 10 :: lines t := by
  induction row with
  | nil => exact lines_of_ne (by decide) t
  | cons field rest ih =>
    cases rest with
    | nil =>
      have hone := lines_writeField field (10 :: t)
      rw [lines_of_ne (by decide)] at hone
      simpa [List.intercalate] using hone
    | cons next rest =>
      rw [List.map_cons, List.map_cons, List.intercalate_cons_cons, List.append_assoc,
        List.append_assoc, lines_writeField, List.map_cons, List.map_cons,
        List.intercalate_cons_cons, List.append_assoc, List.append_assoc]
      congr 1
      change lines (44 :: _) = 44 :: _
      rw [lines_of_ne (by decide)]
      exact congrArg (List.cons 44) ih

theorem lines_write (rows : List (List Str)) : lines (write rows) = rows.flatMap settledRow := by
  induction rows with
  | nil => rfl
  | cons row rest ih =>
    have hrow := lines_intercalate row (write rest)
    rw [ih] at hrow
    simpa [write, writeRow, settledRow] using hrow

/-! ## Fields -/

theorem quotedField_doubled {field t : Str} (h : t.head? ≠ some 34) :
    quotedField (doubled field ++ 34 :: t) = some (field, t) := by
  induction field with
  | nil =>
    change quotedField (34 :: t) = some ([], t)
    rw [quotedField]
    intro rest heq
    exact h (by rw [heq]; rfl)
  | cons b field ih =>
    rw [doubled_cons]
    by_cases hb : b = 34
    · rw [if_pos hb, hb]
      change quotedField (34 :: 34 :: (doubled field ++ 34 :: t)) = _
      rw [quotedField, ih, Option.map_some]
    · rw [if_neg hb]
      change quotedField (b :: (doubled field ++ 34 :: t)) = _
      rw [quotedField, ih, Option.map_some]
      · exact fun _ heq _ => absurd heq hb
      · exact hb

theorem takeWhile_plain {field t : Str} (h : ∀ b ∈ field, plainByte b = true)
    (ht : ∀ b rest, t = b :: rest → plainByte b = false) :
    (field ++ t).takeWhile plainByte = field ∧ (field ++ t).dropWhile plainByte = t := by
  rw [List.takeWhile_append_of_pos h, List.dropWhile_append_of_pos h]
  cases t with
  | nil => simp
  | cons b rest =>
    have hb := ht b rest rfl
    simp [hb]

/-- What ends a field. -/
def Separator (b : UInt8) : Prop := b = 44 ∨ b = 10

theorem Separator.plainByte {b : UInt8} (h : Separator b) : plainByte b = false := by
  rcases h with rfl | rfl <;> decide

theorem Separator.ascii {b : UInt8} (h : Separator b) : b < 0x80 := by
  rcases h with rfl | rfl <;> decide

theorem trimLeading_of_head {s : Str}
    (h : ∀ r, (runes s).head? = some r → isSpace r = true → r.value = some 10) :
    trimLeading s = s := by
  unfold trimLeading
  have hkeep : (runes s).dropWhile (fun r => isSpace r && r.value ≠ some 10) = runes s := by
    cases hrunes : runes s with
    | nil => rfl
    | cons r rest =>
      rw [hrunes] at h
      refine List.dropWhile_cons_of_neg ?_
      have hr := h r rfl
      simpa using hr
  rw [hkeep, bytesOf_runes]

theorem head_runes (a : UInt8) (rest : Str) :
    (runes (a :: rest)).head? = some (decodeRune a rest) := by
  rw [runes_cons]
  rfl

theorem decodeRune_byte {a : UInt8} (h : a < 0x80) (rest : Str) :
    decodeRune a rest = ⟨some a.toNat, [a]⟩ := if_pos h

/-- A field is read up to its separator, wherever white space is trimmed before it. -/
theorem readField_settled (field : Str) {b : UInt8} (hb : Separator b) (t : Str) :
    readField (trimLeading (settled field ++ b :: t)) = some (crlf field, b :: t) := by
  unfold settled
  cases hquotes : fieldNeedsQuotes field with
  | true =>
    have htrim : trimLeading (quote (crlf field) ++ b :: t) = quote (crlf field) ++ b :: t := by
      refine trimLeading_of_head fun r hr hspace => ?_
      change (runes (34 :: (doubled (crlf field) ++ [34] ++ b :: t))).head? = some r at hr
      rw [head_runes, decodeRune_byte (by decide)] at hr
      cases hr
      revert hspace
      decide
    rw [if_pos rfl, htrim]
    change quotedField (doubled (crlf field) ++ [34] ++ b :: t) = _
    rw [List.append_assoc]
    refine quotedField_doubled ?_
    rcases hb with rfl | rfl
    · change some (44 : UInt8) ≠ some 34
      decide
    · change some (10 : UInt8) ≠ some 34
      decide
  | false =>
    rw [if_neg (by decide), crlf_unquoted hquotes]
    rcases plain_of_unquoted hquotes with rfl | ⟨hnil, hplain, hspace⟩
    · have htrim : trimLeading (b :: t) = b :: t := by
        refine trimLeading_of_head fun r hr hspace => ?_
        rw [head_runes, decodeRune_byte hb.ascii] at hr
        cases hr
        rcases hb with rfl | rfl
        · revert hspace
          decide
        · rfl
      rw [List.nil_append, htrim]
      rcases hb with rfl | rfl <;> rfl
    · obtain ⟨htake, hdrop⟩ := @takeWhile_plain field (b :: t)
        (fun c hc => by
          have := hplain c hc
          unfold plainByte
          simp [this]) (fun c rest heq => by
          cases heq
          exact hb.plainByte)
      cases field with
      | nil => exact absurd rfl hnil
      | cons a field =>
        have htrim : trimLeading ((a :: field) ++ b :: t) = (a :: field) ++ b :: t := by
          refine trimLeading_of_head fun r hr hr' => ?_
          rw [List.cons_append, head_runes, decodeRune_ascii hb.ascii] at hr
          cases hr
          rw [startsWithSpace, head_runes, Option.any_some, hr'] at hspace
          cases hspace
        rw [htrim]
        have hquote : a ≠ 34 := (hplain a List.mem_cons_self).2.2.1
        have hread : readField ((a :: field) ++ b :: t) = plainField ((a :: field) ++ b :: t) := by
          rw [List.cons_append, readField]
          intro rest heq
          exact hquote (List.cons.inj heq).1
        rw [hread, plainField, htake, hdrop, if_neg]
        rw [List.contains_eq_mem, decide_eq_true_eq]
        exact fun hmem => (hplain 34 hmem).2.2.1 rfl

/-! ## Rows -/

theorem settledRow_cons (field next : Str) (rest : List Str) :
    settledRow (field :: next :: rest) = settled field ++ 44 :: settledRow (next :: rest) := by
  simp only [settledRow, List.map_cons, List.intercalate_cons_cons, List.append_assoc]
  rfl

theorem readRow_settled {row : List Str} (hrow : row ≠ []) {n : ℕ} (hn : row.length ≤ n) (t : Str) :
    readRow n (settledRow row ++ t) = some (row.map crlf, t) := by
  induction row generalizing n with
  | nil => exact absurd rfl hrow
  | cons field rest ih =>
    obtain ⟨n, rfl⟩ : ∃ k, n = k + 1 := Nat.exists_eq_add_of_le' (by
      rw [List.length_cons] at hn
      omega)
    cases rest with
    | nil =>
      have htext : settledRow [field] ++ t = settled field ++ 10 :: t := by
        simp [settledRow, List.intercalate]
      rw [htext, readRow, readField_settled field (Or.inr rfl)]
      rfl
    | cons next rest =>
      have hrest := ih (by simp) (n := n) (by simpa using hn)
      rw [settledRow_cons, List.append_assoc, List.cons_append, readRow,
        readField_settled field (Or.inl rfl), Option.bind_some]
      change (readRow n (settledRow (next :: rest) ++ t)).map _ = _
      rw [hrest]
      rfl

theorem length_settledRow (row : List Str) : row.length ≤ (settledRow row).length := by
  induction row with
  | nil => simp
  | cons field rest ih =>
    cases rest with
    | nil => simp [settledRow]
    | cons next rest =>
      have hsum := congrArg List.length (settledRow_cons field next rest)
      rw [List.length_append, List.length_cons] at hsum
      rw [List.length_cons]
      omega

/-- A row of two or more fields is no empty line. -/
theorem settledRow_solid {row : List Str} (h : 2 ≤ row.length) :
    ∃ b rest, settledRow row = b :: rest ∧ b ≠ 10 := by
  rcases row with _ | ⟨field, _ | ⟨next, rest⟩⟩
  · simp at h
  · simp at h
  · rw [settledRow_cons]
    unfold settled
    cases hquotes : fieldNeedsQuotes field with
    | true => exact ⟨34, _, rfl, by decide⟩
    | false =>
      rcases plain_of_unquoted hquotes with rfl | ⟨-, hplain, -⟩
      · exact ⟨44, _, rfl, by decide⟩
      · cases field with
        | nil => exact ⟨44, _, rfl, by decide⟩
        | cons b field => exact ⟨b, _, rfl, (hplain b List.mem_cons_self).1⟩

theorem readRows_settled {rows : List (List Str)} (h : ∀ row ∈ rows, 2 ≤ row.length) {n : ℕ}
    (hn : rows.length < n) :
    readRows n (rows.flatMap settledRow) = some (rows.map (List.map crlf)) := by
  induction rows generalizing n with
  | nil =>
    obtain ⟨n, rfl⟩ : ∃ k, n = k + 1 := Nat.exists_eq_add_of_le' hn
    rfl
  | cons row rest ih =>
    obtain ⟨n, rfl⟩ : ∃ k, n = k + 1 := Nat.exists_eq_add_of_le' (by omega)
    rw [List.forall_mem_cons] at h
    obtain ⟨b, tail, heq, hb⟩ := settledRow_solid h.1
    have hfuel : row.length ≤ (settledRow row ++ rest.flatMap settledRow).length + 1 := by
      have hrow := length_settledRow row
      rw [List.length_append]
      omega
    have hread := readRow_settled (List.ne_nil_of_length_pos (by omega)) hfuel
      (rest.flatMap settledRow)
    rw [List.flatMap_cons]
    rw [heq, List.cons_append] at hread ⊢
    rw [readRows, hread, Option.bind_some]
    · dsimp only
      rw [ih h.2 (by simpa using hn)]
      rfl
    · exact fun hnil => by cases hnil
    · exact fun _ heq => hb (List.cons.inj heq).1

/-- A table of two or more columns is read back as it was written, with CRLF read as LF. -/
theorem read_write {rows : List (List Str)} {width : ℕ} (hwidth : 2 ≤ width)
    (h : ∀ row ∈ rows, row.length = width) :
    read (write rows) = some (rows.map (List.map crlf)) := by
  have hrows : ∀ row ∈ rows, 2 ≤ row.length := fun row hrow => by rw [h row hrow]; exact hwidth
  have hlength : rows.length < (rows.flatMap settledRow).length + 1 := by
    clear h
    induction rows with
    | nil => simp
    | cons row rest ih =>
      rw [List.forall_mem_cons] at hrows
      have hrow := length_settledRow row
      have hrest := ih hrows.2
      rw [List.flatMap_cons, List.length_append, List.length_cons]
      omega
  have hsame : sameWidth (rows.map (List.map crlf)) = true := by
    cases rows with
    | nil => rfl
    | cons row rest =>
      rw [List.forall_mem_cons] at h
      rw [List.map_cons, sameWidth, List.all_eq_true]
      intro r hr
      obtain ⟨r', hr', rfl⟩ := List.mem_map.mp hr
      simp [h.1, h.2 r' hr']
  rw [read, lines_write, readRows_settled hrows hlength, Option.filter_some, if_pos hsame]

example : read (lit "a,b\r\n\" x\"\"\r\ny\",\n") =
    some [[lit "a", lit "b"], [lit " x\"\ny", []]] := by
  decide

end CsvText
