import ShortQ.DecimalText

/-! # Placeholders

`rebind`, which numbers the question marks of a statement, and what a statement is that is built
from texts and values. -/
namespace Placeholders

open GoText
open DecimalText (decimal_repr digit_of_mem_repr)

/-! ## The scan -/

def dollar (arg : ℕ) : Str := 36 :: lit (Nat.repr arg)

/-- The loop of `rebind`. `quote` is zero outside quotes, and a byte that was written with the one
before it is skipped. -/
def rebindFrom (skip : Bool) (quote : UInt8) (arg : ℕ) : Str → Str
  | [] => []
  | c :: rest =>
    if skip then rebindFrom false quote arg rest
    else if quote ≠ 0 then
      if c = quote then
        if rest.head? = some quote then c :: quote :: rebindFrom true quote arg rest
        else c :: rebindFrom false 0 arg rest
      else c :: rebindFrom false quote arg rest
    else if c = 39 || c = 34 then c :: rebindFrom false c arg rest
    else if c = 63 then dollar arg ++ rebindFrom false 0 (arg + 1) rest
    else c :: rebindFrom false 0 arg rest

def rebind (query : Str) : Str := rebindFrom false 0 1 query

example : rebind (lit "'?' AS s WHERE id=? OR slug=?") =
    lit "'?' AS s WHERE id=$1 OR slug=$2" := by decide

section Scan

variable {quote c : UInt8} {arg : ℕ} {rest : Str}

theorem rebindFrom_skip :
    rebindFrom true quote arg (c :: rest) = rebindFrom false quote arg rest := rfl

theorem rebindFrom_twice (hquote : quote ≠ 0) :
    rebindFrom false quote arg (quote :: quote :: rest) =
    quote :: quote :: rebindFrom false quote arg rest := by
  rw [rebindFrom, if_neg Bool.false_ne_true, if_pos hquote, if_pos rfl,
    if_pos List.head?_cons, rebindFrom_skip]

/-- A quote that no other follows closes the section. -/
theorem rebindFrom_close (hquote : quote ≠ 0) (h : rest.head? ≠ some quote) :
    rebindFrom false quote arg (quote :: rest) = quote :: rebindFrom false 0 arg rest := by
  rw [rebindFrom, if_neg Bool.false_ne_true, if_pos hquote, if_pos rfl, if_neg h]

theorem rebindFrom_inside (hquote : quote ≠ 0) (hc : c ≠ quote) :
    rebindFrom false quote arg (c :: rest) = c :: rebindFrom false quote arg rest := by
  rw [rebindFrom, if_neg Bool.false_ne_true, if_pos hquote, if_neg hc]

theorem rebindFrom_open (hc : c = 39 ∨ c = 34) :
    rebindFrom false 0 arg (c :: rest) = c :: rebindFrom false c arg rest := by
  rw [rebindFrom, if_neg Bool.false_ne_true, if_neg (by simp), if_pos (by simpa using hc)]

theorem rebindFrom_mark : rebindFrom false 0 arg (63 :: rest) =
    dollar arg ++ rebindFrom false 0 (arg + 1) rest := by
  rw [rebindFrom, if_neg Bool.false_ne_true, if_neg (by simp), if_neg (by decide), if_pos rfl]

theorem rebindFrom_outside (hc : ¬ (c = 39 ∨ c = 34)) (hmark : c ≠ 63) :
    rebindFrom false 0 arg (c :: rest) = c :: rebindFrom false 0 arg rest := by
  rw [rebindFrom, if_neg Bool.false_ne_true, if_neg (by simp), if_neg (by simpa using hc),
    if_neg hmark]

theorem ne_zero_of_quote (hquote : quote = 39 ∨ quote = 34) : quote ≠ 0 := by
  rcases hquote with rfl | rfl
  · decide
  · decide

end Scan

/-! ## Sections -/

/-- A part of a statement's text. A quoted section holds its quote doubled; one that is never
closed reaches to the end. -/
inductive Section where
  | plain (b : UInt8)
  | mark
  | quoted (quote : UInt8) (body : Str)
  | unclosed (quote : UInt8) (body : Str)

def doubled (quote : UInt8) (body : Str) : Str :=
  body.flatMap fun b => if b = quote then [quote, quote] else [b]

def Section.text : Section → Str
  | .plain b => [b]
  | .mark => [63]
  | .quoted quote body => quote :: (doubled quote body ++ [quote])
  | .unclosed quote body => quote :: doubled quote body

def written (sections : List Section) : Str := sections.flatMap Section.text

/-- A quoted section ends at a quote that no other follows, and a byte outside the sections is
neither a quote nor a question mark. -/
def WellFormed : List Section → Prop
  | [] => True
  | .plain b :: rest => (b ≠ 39 ∧ b ≠ 34 ∧ b ≠ 63) ∧ WellFormed rest
  | .mark :: rest => WellFormed rest
  | .quoted quote _ :: rest =>
    (quote = 39 ∨ quote = 34) ∧ (written rest).head? ≠ some quote ∧ WellFormed rest
  | .unclosed quote _ :: rest => (quote = 39 ∨ quote = 34) ∧ rest = []

/-- The text with its marks numbered from `arg` on and everything else as it was. -/
def numbered (arg : ℕ) : List Section → Str
  | [] => []
  | .mark :: rest => dollar arg ++ numbered (arg + 1) rest
  | .plain b :: rest => b :: numbered arg rest
  | .quoted quote body :: rest => (Section.quoted quote body).text ++ numbered arg rest
  | .unclosed quote body :: rest => (Section.unclosed quote body).text ++ numbered arg rest

section Quoted

variable {quote : UInt8} {arg : ℕ}

theorem doubled_cons (b : UInt8) (body : Str) : doubled quote (b :: body) =
    (if b = quote then [quote, quote] else [b]) ++ doubled quote body := List.flatMap_cons

/-- Within a section everything is copied, doubled quotes included. -/
theorem rebindFrom_doubled (hquote : quote ≠ 0) (body rest : Str) :
    rebindFrom false quote arg (doubled quote body ++ rest) =
      doubled quote body ++ rebindFrom false quote arg rest := by
  induction body with
  | nil => rfl
  | cons b body ih =>
    rw [doubled_cons]
    by_cases hb : b = quote
    · rw [if_pos hb, List.append_assoc, List.append_assoc, ← ih]
      exact rebindFrom_twice hquote
    · rw [if_neg hb, List.append_assoc, List.append_assoc, ← ih]
      exact rebindFrom_inside hquote hb

end Quoted

/-- The scan numbers the marks outside the sections and copies the rest. -/
theorem rebindFrom_written {sections : List Section} (h : WellFormed sections) (arg : ℕ) :
    rebindFrom false 0 arg (written sections) = numbered arg sections := by
  induction sections generalizing arg with
  | nil => rfl
  | cons first rest ih =>
    cases first with
    | plain b =>
      obtain ⟨⟨hsingle, hdouble, hmark⟩, hrest⟩ := h
      change rebindFrom false 0 arg (b :: written rest) = b :: numbered arg rest
      rw [rebindFrom_outside (by simp [hsingle, hdouble]) hmark, ih hrest]
    | mark =>
      change rebindFrom false 0 arg (63 :: written rest) = dollar arg ++ numbered (arg + 1) rest
      rw [rebindFrom_mark, ih h]
    | quoted quote body =>
      obtain ⟨hquote, hnext, hrest⟩ := h
      have hne := ne_zero_of_quote hquote
      have htext : written (.quoted quote body :: rest) =
          quote :: (doubled quote body ++ quote :: written rest) := by
        simp [written, Section.text]
      rw [htext, rebindFrom_open hquote, rebindFrom_doubled hne, rebindFrom_close hne hnext,
        ih hrest]
      simp [numbered, Section.text]
    | unclosed quote body =>
      obtain ⟨hquote, rfl⟩ := h
      have hne := ne_zero_of_quote hquote
      have htext : written [.unclosed quote body] = quote :: (doubled quote body ++ []) := by
        simp [written, Section.text]
      rw [htext, rebindFrom_open hquote, rebindFrom_doubled hne]
      simp [numbered, Section.text, rebindFrom]

/-- After an opening quote the text is a section, closed or not. -/
theorem exists_body (quote : UInt8) (s : Str) : ∃ body, s = doubled quote body ∨
    ∃ after, s = doubled quote body ++ quote :: after ∧ after.head? ≠ some quote := by
  induction hn : s.length using Nat.strongRecOn generalizing s with
  | _ n ih =>
    cases s with
    | nil => exact ⟨[], Or.inl rfl⟩
    | cons b rest =>
      by_cases hb : b = quote
      · cases rest with
        | nil => exact ⟨[], Or.inr ⟨[], by rw [hb]; rfl, by simp⟩⟩
        | cons d more =>
          by_cases hd : d = quote
          · obtain ⟨body, hbody⟩ := ih more.length (by simp only [← hn, List.length_cons]; omega)
              more rfl
            refine ⟨quote :: body, ?_⟩
            have hcons : ∀ t, b :: d :: (doubled quote body ++ t) =
                doubled quote (quote :: body) ++ t := by
              intro t
              rw [doubled_cons, if_pos rfl, hb, hd]
              rfl
            rcases hbody with heq | ⟨after, heq, hafter⟩
            · left
              have h := hcons []
              rwa [List.append_nil, List.append_nil, ← heq] at h
            · exact Or.inr ⟨after, heq ▸ hcons _, hafter⟩
          · refine ⟨[], Or.inr ⟨d :: more, by rw [hb]; rfl, ?_⟩⟩
            simpa using hd
      · obtain ⟨body, hbody⟩ := ih rest.length (by simp [← hn]) rest rfl
        refine ⟨b :: body, ?_⟩
        have hcons : ∀ t, b :: (doubled quote body ++ t) = doubled quote (b :: body) ++ t := by
          intro t
          rw [doubled_cons, if_neg hb]
          rfl
        rcases hbody with heq | ⟨after, heq, hafter⟩
        · left
          have h := hcons []
          rwa [List.append_nil, List.append_nil, ← heq] at h
        · exact Or.inr ⟨after, heq ▸ hcons _, hafter⟩

/-- Every text is made of sections. -/
theorem exists_sections (s : Str) : ∃ sections, WellFormed sections ∧ written sections = s := by
  induction hn : s.length using Nat.strongRecOn generalizing s with
  | _ n ih =>
    cases s with
    | nil => exact ⟨[], trivial, rfl⟩
    | cons c rest =>
      obtain ⟨sections, hrest, htext⟩ := ih rest.length (by simp [← hn]) rest rfl
      by_cases hquote : c = 39 ∨ c = 34
      · obtain ⟨body, heq | ⟨after, heq, hafter⟩⟩ := exists_body c rest
        · refine ⟨[.unclosed c body], ⟨hquote, rfl⟩, ?_⟩
          rw [heq]
          simp [written, Section.text]
        · obtain ⟨behind, hbehind, htail⟩ := ih after.length (by
            rw [← hn, heq]
            simp only [List.length_cons, List.length_append]
            omega) after rfl
          refine ⟨.quoted c body :: behind, ⟨hquote, htail ▸ hafter, hbehind⟩, ?_⟩
          rw [heq, ← htail]
          simp [written, Section.text]
      · by_cases hmark : c = 63
        · refine ⟨.mark :: sections, hrest, ?_⟩
          rw [← htext, hmark]
          rfl
        · refine ⟨.plain c :: sections, ⟨⟨?_, ?_, hmark⟩, hrest⟩, ?_⟩
          · exact fun heq => hquote (Or.inl heq)
          · exact fun heq => hquote (Or.inr heq)
          · rw [← htext]
            rfl

/-- What may stand behind a section's body: nothing, or the quote that closes it. -/
def Ends (quote : UInt8) (t : Str) : Prop :=
  t = [] ∨ ∃ after, t = quote :: after ∧ after.head? ≠ some quote

theorem not_ends {quote b : UInt8} {body t : Str} :
    ¬ Ends quote (doubled quote (b :: body) ++ t) := by
  rw [doubled_cons]
  by_cases hb : b = quote
  · rw [if_pos hb]
    rintro (hnil | ⟨after, heq, hafter⟩)
    · simp at hnil
    · simp only [List.cons_append, List.nil_append, List.cons.injEq, true_and] at heq
      rw [← heq] at hafter
      exact hafter rfl
  · rw [if_neg hb]
    rintro (hnil | ⟨after, heq, -⟩)
    · simp at hnil
    · simp only [List.cons_append, List.nil_append, List.cons.injEq] at heq
      exact hb heq.1

theorem doubled_unique {quote : UInt8} {a b s t : Str} (hs : Ends quote s) (ht : Ends quote t)
    (h : doubled quote a ++ s = doubled quote b ++ t) : a = b ∧ s = t := by
  induction a generalizing b with
  | nil =>
    cases b with
    | nil => exact ⟨rfl, h⟩
    | cons y b =>
      change s = doubled quote (y :: b) ++ t at h
      exact absurd (h ▸ hs) not_ends
  | cons x a ih =>
    cases b with
    | nil =>
      change doubled quote (x :: a) ++ s = t at h
      exact absurd (h ▸ ht) not_ends
    | cons y b =>
      rw [doubled_cons, doubled_cons] at h
      have hsame : x = y ∧ doubled quote a ++ s = doubled quote b ++ t := by
        by_cases hx : x = quote
        · by_cases hy : y = quote
          · rw [if_pos hx, if_pos hy] at h
            simp only [List.cons_append, List.nil_append, List.cons.injEq, true_and] at h
            exact ⟨hx.trans hy.symm, h⟩
          · rw [if_pos hx, if_neg hy] at h
            simp only [List.cons_append, List.nil_append, List.cons.injEq] at h
            exact absurd h.1.symm hy
        · by_cases hy : y = quote
          · rw [if_neg hx, if_pos hy] at h
            simp only [List.cons_append, List.nil_append, List.cons.injEq] at h
            exact absurd h.1 hx
          · rw [if_neg hx, if_neg hy] at h
            simp only [List.cons_append, List.nil_append, List.cons.injEq] at h
            exact h
      obtain ⟨hbody, htail⟩ := ih hsame.2
      exact ⟨by rw [hsame.1, hbody], htail⟩

/-- Which section a byte outside the sections begins. -/
def beginsWith (c : UInt8) : Section → Prop
  | .plain b => b = c ∧ c ≠ 39 ∧ c ≠ 34 ∧ c ≠ 63
  | .mark => c = 63
  | .quoted quote _ | .unclosed quote _ => quote = c ∧ (c = 39 ∨ c = 34)

theorem beginsWith_first {first : Section} {rest : List Section}
    (h : WellFormed (first :: rest)) :
    ∃ c t, written (first :: rest) = c :: t ∧ beginsWith c first := by
  cases first with
  | plain b => exact ⟨b, _, rfl, rfl, h.1⟩
  | mark => exact ⟨63, _, rfl, rfl⟩
  | quoted quote body => exact ⟨quote, _, rfl, rfl, h.1⟩
  | unclosed quote body => exact ⟨quote, _, rfl, rfl, h.1⟩

theorem written_cons (first : Section) (rest : List Section) :
    written (first :: rest) = first.text ++ written rest := List.flatMap_cons

theorem ends_rest {quote : UInt8} {rest : List Section}
    (h : (written rest).head? ≠ some quote) : Ends quote (quote :: written rest) :=
  Or.inr ⟨_, rfl, h⟩

/-- Two ways to read a text as sections are the same. -/
theorem sections_unique {a b : List Section} (ha : WellFormed a) (hb : WellFormed b)
    (h : written a = written b) : a = b := by
  induction a generalizing b with
  | nil =>
    cases b with
    | nil => rfl
    | cons second more =>
      obtain ⟨c, t, heq, -⟩ := beginsWith_first hb
      rw [heq] at h
      cases h
  | cons first rest ih =>
    obtain ⟨c, t, heq, hfirst⟩ := beginsWith_first ha
    cases b with
    | nil =>
      rw [heq] at h
      cases h
    | cons second more =>
      obtain ⟨d, u, heq', hsecond⟩ := beginsWith_first hb
      obtain rfl : c = d := by
        rw [heq, heq'] at h
        exact (List.cons.inj h).1
      rw [written_cons, written_cons] at h
      cases first with
      | plain x =>
        obtain ⟨rfl, hsingle, hdouble, hmark⟩ := hfirst
        cases second with
        | plain y =>
          obtain ⟨rfl, -⟩ := hsecond
          rw [ih ha.2 hb.2 (List.cons.inj h).2]
        | mark => exact absurd hsecond hmark
        | quoted quote body => exact absurd hsecond.2 (by simp [hsingle, hdouble])
        | unclosed quote body => exact absurd hsecond.2 (by simp [hsingle, hdouble])
      | mark =>
        obtain rfl : c = 63 := hfirst
        cases second with
        | plain y => exact absurd rfl hsecond.2.2.2
        | mark =>
          have htail : written rest = written more := (List.cons.inj h).2
          rw [@ih more ha hb htail]
        | quoted quote body => exact absurd hsecond.2 (by decide)
        | unclosed quote body => exact absurd hsecond.2 (by decide)
      | quoted quote body =>
        obtain ⟨rfl, hquote⟩ := hfirst
        have hends := ends_rest ha.2.1
        cases second with
        | plain y => exact absurd hquote (by simp [hsecond.2.1, hsecond.2.2.1])
        | mark => exact absurd hquote (by simp [show quote = 63 from hsecond])
        | quoted quote' body' =>
          obtain ⟨rfl, -⟩ := hsecond
          simp only [Section.text, List.cons_append, List.append_assoc, List.cons.injEq, true_and,
            List.nil_append] at h
          obtain ⟨rfl, htail⟩ := doubled_unique hends (ends_rest hb.2.1) h
          rw [ih ha.2.2 hb.2.2 (List.cons.inj htail).2]
        | unclosed quote' body' =>
          obtain ⟨rfl, -⟩ := hsecond
          obtain ⟨-, rfl⟩ := hb
          simp only [Section.text, List.cons_append, List.append_assoc, List.cons.injEq, true_and,
            List.nil_append] at h
          exact absurd (doubled_unique hends (Or.inl rfl) h).2 (List.cons_ne_nil _ _)
      | unclosed quote body =>
        obtain ⟨rfl, hquote⟩ := hfirst
        obtain ⟨-, rfl⟩ := ha
        cases second with
        | plain y => exact absurd hquote (by simp [hsecond.2.1, hsecond.2.2.1])
        | mark => exact absurd hquote (by simp [show quote = 63 from hsecond])
        | quoted quote' body' =>
          obtain ⟨rfl, -⟩ := hsecond
          simp only [Section.text, List.cons_append, List.append_assoc, List.cons.injEq, true_and,
            List.nil_append] at h
          exact absurd (doubled_unique (Or.inl rfl) (ends_rest hb.2.1) h).2.symm
            (List.cons_ne_nil _ _)
        | unclosed quote' body' =>
          obtain ⟨rfl, -⟩ := hsecond
          obtain ⟨-, rfl⟩ := hb
          simp only [Section.text, List.cons_append, List.cons.injEq, true_and] at h
          rw [(doubled_unique (Or.inl rfl) (Or.inl rfl) h).1]

/-- Every statement has one reading, and `rebind` numbers its marks. -/
theorem rebind_sections (query : Str) : ∃ sections, WellFormed sections ∧
    written sections = query ∧ rebind query = numbered 1 sections ∧
    ∀ other, WellFormed other → written other = query → other = sections := by
  obtain ⟨sections, hwell, rfl⟩ := exists_sections query
  refine ⟨sections, hwell, rfl, rebindFrom_written hwell 1, fun other hother heq => ?_⟩
  exact sections_unique hother hwell heq

/-! ## Texts that close what they open -/

/-- The section the next byte stands in, counting a doubled quote as the end of one section and
the beginning of another. -/
def after (quote c : UInt8) : UInt8 :=
  if quote ≠ 0 then (if c = quote then 0 else quote) else if c = 39 || c = 34 then c else 0

def afterText (quote : UInt8) (s : Str) : UInt8 := s.foldl after quote

/-- `rebindFrom` without a look at the next byte. -/
def toggle (quote : UInt8) (arg : ℕ) : Str → Str
  | [] => []
  | c :: rest =>
    if quote = 0 && c = 63 then dollar arg ++ toggle 0 (arg + 1) rest
    else c :: toggle (after quote c) arg rest

theorem toggle_quoted {quote c : UInt8} (hquote : quote ≠ 0) (arg : ℕ) (rest : Str) :
    toggle quote arg (c :: rest) = c :: toggle (if c = quote then 0 else quote) arg rest := by
  rw [toggle, if_neg (by simp [hquote]), after, if_pos hquote]

theorem toggle_outside {c : UInt8} (hmark : c ≠ 63) (arg : ℕ) (rest : Str) :
    toggle 0 arg (c :: rest) = c :: toggle (if c = 39 || c = 34 then c else 0) arg rest := by
  rw [toggle, if_neg (by simp [hmark]), after, if_neg (by simp)]

/-- A doubled quote leaves the scan where closing and opening again does. -/
theorem rebindFrom_eq_toggle {quote : UInt8} (hquote : quote = 0 ∨ quote = 39 ∨ quote = 34)
    (arg : ℕ) (s : Str) : rebindFrom false quote arg s = toggle quote arg s := by
  induction hn : s.length using Nat.strongRecOn generalizing quote arg s with
  | _ n ih =>
    cases s with
    | nil => rfl
    | cons c rest =>
      have hrest : ∀ {q : UInt8}, q = 0 ∨ q = 39 ∨ q = 34 → ∀ k,
          rebindFrom false q k rest = toggle q k rest := fun hq k =>
        ih rest.length (by simp [← hn]) hq k rest rfl
      by_cases hzero : quote = 0
      · subst hzero
        by_cases hmark : c = 63
        · rw [hmark, rebindFrom_mark, hrest (Or.inl rfl), toggle, if_pos (by decide)]
        · rw [toggle_outside hmark]
          by_cases hc : c = 39 ∨ c = 34
          · rw [rebindFrom_open hc, if_pos (by simpa using hc), hrest (Or.inr hc)]
          · rw [rebindFrom_outside hc hmark, if_neg (by simpa using hc), hrest (Or.inl rfl)]
      · have hopen : quote = 39 ∨ quote = 34 := hquote.resolve_left hzero
        rw [toggle_quoted hzero]
        by_cases hc : c = quote
        · subst hc
          rw [if_pos rfl]
          by_cases hnext : rest.head? = some c
          · obtain ⟨more, rfl⟩ := List.head?_eq_some_iff.mp hnext
            have hmark : c ≠ 63 := by
              rintro rfl
              simp at hopen
            rw [rebindFrom_twice hzero, toggle_outside hmark, if_pos (by simpa using hopen),
              ih more.length (by simp only [← hn, List.length_cons]; omega) hquote arg more rfl]
          · rw [rebindFrom_close hzero hnext, hrest (Or.inl rfl)]
        · rw [rebindFrom_inside hzero hc, if_neg hc, hrest hquote]

/-- A text whose sections are all closed, without a question mark outside them. -/
def closed (s : Str) : Bool := afterText 0 s = 0 && scan 0 s
where
  scan (quote : UInt8) : Str → Bool
    | [] => true
    | c :: rest => !(quote = 0 && c = 63) && scan (after quote c) rest

theorem toggle_closed {quote : UInt8} {s : Str} (h : closed.scan quote s = true) (arg : ℕ)
    (t : Str) : toggle quote arg (s ++ t) = s ++ toggle (afterText quote s) arg t := by
  induction s generalizing quote with
  | nil => rfl
  | cons c s ih =>
    rw [closed.scan, Bool.and_eq_true, Bool.not_eq_true'] at h
    rw [List.cons_append, toggle, h.1, if_neg Bool.false_ne_true, ih h.2]
    rfl

/-! ## Statements made of parts -/

/-- What a placeholder stands for, as the driver is given it. -/
inductive Arg where
  | int (i : ℤ)
  | text (s : Str)
  | bool (b : Bool)
  | bytes (s : Str)
  | time (nanos : ℤ)
  | null
  deriving DecidableEq, Repr

/-- A piece of a statement's text, or a value in its place. -/
inductive Part where
  | sql (text : Str)
  | value (arg : Arg)

/-- The statement as it is written, a question mark for each value. -/
def query (parts : List Part) : Str :=
  parts.flatMap fun
    | .sql text => text
    | .value _ => [63]

def values (parts : List Part) : List Arg :=
  parts.flatMap fun
    | .sql _ => []
    | .value arg => [arg]

/-- The statement with the values numbered from `arg` on. -/
def bound (arg : ℕ) : List Part → Str
  | [] => []
  | .sql text :: rest => text ++ bound arg rest
  | .value _ :: rest => dollar arg ++ bound (arg + 1) rest

/-- A text that does not disturb the placeholders around it: it is closed, names no parameter of
its own and does not go on with a digit. -/
def quiet (text : Str) : Bool :=
  closed text && !text.contains 36 && text.head?.all fun b => !isDigit b

def Part.Sound : Part → Prop
  | .sql text => quiet text = true
  | .value _ => True

/-- The numbers behind the dollar signs outside quotes, as the server reads them. -/
def parametersFrom (quote : UInt8) : Str → List ℕ
  | [] => []
  | c :: rest =>
    if quote = 0 && c = 36 then
      (decimal (rest.takeWhile isDigit)).toList ++ parametersFrom 0 rest
    else parametersFrom (after quote c) rest

def parameters (query : Str) : List ℕ := parametersFrom 0 query

theorem query_append (parts rest : List Part) :
    query (parts ++ rest) = query parts ++ query rest := List.flatMap_append

theorem values_append (parts rest : List Part) :
    values (parts ++ rest) = values parts ++ values rest := List.flatMap_append

theorem closed_of_quiet {text : Str} (h : quiet text = true) :
    closed.scan 0 text = true ∧ afterText 0 text = 0 := by
  simp only [quiet, closed, Bool.and_eq_true, decide_eq_true_eq] at h
  exact ⟨h.1.1.2, h.1.1.1⟩

theorem afterText_append (quote : UInt8) (s t : Str) :
    afterText quote (s ++ t) = afterText (afterText quote s) t := List.foldl_append

theorem scan_append {quote : UInt8} {s t : Str} (hs : closed.scan quote s = true)
    (ht : closed.scan (afterText quote s) t = true) : closed.scan quote (s ++ t) = true := by
  induction s generalizing quote with
  | nil => exact ht
  | cons c s ih =>
    rw [closed.scan, Bool.and_eq_true] at hs
    rw [List.cons_append, closed.scan, Bool.and_eq_true]
    exact ⟨hs.1, ih hs.2 ht⟩

theorem quiet_append {s t : Str} (hs : quiet s = true) (ht : quiet t = true) :
    quiet (s ++ t) = true := by
  obtain ⟨hscan, hend⟩ := closed_of_quiet hs
  obtain ⟨hscan', hend'⟩ := closed_of_quiet ht
  simp only [quiet, Bool.and_eq_true, Bool.not_eq_true', List.contains_eq_mem,
    decide_eq_false_iff_not] at hs ht ⊢
  refine ⟨⟨?_, ?_⟩, ?_⟩
  · rw [closed, afterText_append, hend, hend', scan_append hscan (by rw [hend]; exact hscan')]
    rfl
  · rw [List.mem_append, not_or]
    exact ⟨hs.1.2, ht.1.2⟩
  · cases s with
    | nil => exact ht.2
    | cons b s => exact hs.2

/-- The values get the numbers of their places. -/
theorem toggle_query {parts : List Part} (h : ∀ p ∈ parts, p.Sound) (arg : ℕ) :
    toggle 0 arg (query parts) = bound arg parts := by
  induction parts generalizing arg with
  | nil => rfl
  | cons first rest ih =>
    have hrest := fun k => ih (fun p hp => h p (List.mem_cons_of_mem first hp)) k
    cases first with
    | sql text =>
      obtain ⟨hscan, hend⟩ := closed_of_quiet (h _ List.mem_cons_self)
      change toggle 0 arg (text ++ query rest) = text ++ bound arg rest
      rw [toggle_closed hscan, hend, hrest]
    | value a =>
      change toggle 0 arg (63 :: query rest) = dollar arg ++ bound (arg + 1) rest
      rw [toggle, if_pos (by decide), hrest]

theorem rebind_query {parts : List Part} (h : ∀ p ∈ parts, p.Sound) :
    rebind (query parts) = bound 1 parts := by
  rw [rebind, rebindFrom_eq_toggle (Or.inl rfl), toggle_query h]

theorem parametersFrom_closed {quote : UInt8} {s : Str} (hdollar : 36 ∉ s) (t : Str) :
    parametersFrom quote (s ++ t) = parametersFrom (afterText quote s) t := by
  induction s generalizing quote with
  | nil => rfl
  | cons c s ih =>
    have hc : c ≠ 36 := fun heq => hdollar (heq ▸ List.mem_cons_self)
    rw [List.cons_append, parametersFrom, if_neg (by simp [hc]),
      ih fun hmem => hdollar (List.mem_cons_of_mem c hmem)]
    rfl

theorem parametersFrom_digits {digits : Str} (h : ∀ b ∈ digits, isDigit b = true) (t : Str) :
    parametersFrom 0 (digits ++ t) = parametersFrom 0 t := by
  induction digits with
  | nil => rfl
  | cons c digits ih =>
    have hdigit := h c List.mem_cons_self
    have hplain : c ≠ 36 ∧ c ≠ 39 ∧ c ≠ 34 := by
      refine ⟨?_, ?_, ?_⟩
      all_goals
        rintro rfl
        exact absurd hdigit (by decide)
    rw [List.cons_append, parametersFrom, if_neg (by simp [hplain.1]), after, if_neg (by simp),
      if_neg (by simp [hplain.2]), ih fun b hb => h b (List.mem_cons_of_mem c hb)]

/-- No part goes on with a digit, so a number ends where its place does. -/
theorem bound_head {parts : List Part} (h : ∀ p ∈ parts, p.Sound) (arg : ℕ) :
    (bound arg parts).head?.all (fun b => !isDigit b) = true := by
  induction parts generalizing arg with
  | nil => rfl
  | cons first rest ih =>
    cases first with
    | sql text =>
      have hquiet : quiet text = true := h _ List.mem_cons_self
      cases text with
      | nil => exact ih (fun p hp => h p (List.mem_cons_of_mem _ hp)) arg
      | cons b text =>
        rw [quiet, Bool.and_eq_true] at hquiet
        exact hquiet.2
    | value a => rfl

theorem takeWhile_digits {digits t : Str} (h : ∀ b ∈ digits, isDigit b = true)
    (ht : t.head?.all (fun b => !isDigit b) = true) :
    (digits ++ t).takeWhile isDigit = digits := by
  rw [List.takeWhile_append_of_pos h]
  cases t with
  | nil => rw [List.takeWhile_nil, List.append_nil]
  | cons b t =>
    have hb : isDigit b = false := by simpa using ht
    rw [List.takeWhile_cons_of_neg (by simp [hb]), List.append_nil]

/-- Each number from the first to the last stands in the statement once, in that order. -/
theorem parameters_bound {parts : List Part} (h : ∀ p ∈ parts, p.Sound) (arg : ℕ) :
    parametersFrom 0 (bound arg parts) = List.range' arg (values parts).length := by
  induction parts generalizing arg with
  | nil => rfl
  | cons first rest ih =>
    have htail : ∀ p ∈ rest, p.Sound := fun p hp => h p (List.mem_cons_of_mem first hp)
    cases first with
    | sql text =>
      have hquiet : quiet text = true := h _ List.mem_cons_self
      obtain ⟨-, hend⟩ := closed_of_quiet hquiet
      have hdollar : 36 ∉ text := by
        simp only [quiet, Bool.and_eq_true, Bool.not_eq_true', List.contains_eq_mem,
          decide_eq_false_iff_not] at hquiet
        exact hquiet.1.2
      change parametersFrom 0 (text ++ bound arg rest) = List.range' arg (values rest).length
      rw [parametersFrom_closed hdollar, hend, ih htail]
    | value a =>
      have hdigits : ∀ b ∈ lit (Nat.repr arg), isDigit b = true := fun _ => digit_of_mem_repr
      change parametersFrom 0 (36 :: (lit (Nat.repr arg) ++ bound (arg + 1) rest)) =
        List.range' arg ((values rest).length + 1)
      rw [parametersFrom, if_pos (by decide), takeWhile_digits hdigits (bound_head htail _),
        decimal_repr, parametersFrom_digits hdigits, ih htail, List.range'_succ]
      rfl

/-- A statement and its arguments say what the parts say: the number of a place is that of its
value among the arguments, and each number stands once. -/
structure Aligned (statement : Str × List Arg) (parts : List Part) : Prop where
  query : rebind statement.1 = bound 1 parts
  args : statement.2 = values parts
  parameters : parameters (rebind statement.1) = List.range' 1 statement.2.length
  meant : ∀ front arg back, parts = front ++ .value arg :: back →
    rebind statement.1 = bound 1 front ++ dollar ((values front).length + 1) ++
        bound ((values front).length + 2) back ∧
      statement.2[(values front).length]? = some arg

theorem bound_append (parts rest : List Part) (arg : ℕ) :
    bound arg (parts ++ rest) = bound arg parts ++ bound (arg + (values parts).length) rest := by
  induction parts generalizing arg with
  | nil => rfl
  | cons first parts ih =>
    cases first with
    | sql text =>
      change text ++ bound arg (parts ++ rest) = text ++ bound arg parts ++
        bound (arg + (values parts).length) rest
      rw [ih, List.append_assoc]
    | value a =>
      change dollar arg ++ bound (arg + 1) (parts ++ rest) = dollar arg ++ bound (arg + 1) parts ++
        bound (arg + ((values parts).length + 1)) rest
      rw [ih, List.append_assoc, Nat.add_assoc, Nat.add_comm 1]

theorem aligned {parts : List Part} (h : ∀ p ∈ parts, p.Sound) :
    Aligned (query parts, values parts) parts := by
  constructor
  · exact rebind_query h
  · rfl
  · rw [rebind_query h]
    exact parameters_bound h 1
  · rintro front arg back rfl
    constructor
    · rw [rebind_query h, bound_append, List.append_assoc, Nat.add_comm 1]
      rfl
    · rw [values_append]
      change (values front ++ arg :: values back)[(values front).length]? = some arg
      rw [List.getElem?_append_right (Nat.le_refl _), Nat.sub_self, List.getElem?_cons_zero]

/-! ## Statements built a text at a time -/

/-- A statement in the making: what was written so far, and the arguments so far. -/
abbrev Statement := Str × List Arg

/-- A condition on a value. -/
def condition (text : Str) (arg : Arg) : List Part := [.sql text, .value arg]

def Made (s : Statement) (parts : List Part) : Prop := s = (query parts, values parts)

section Made

variable {q : Str} {args : List Arg} {parts : List Part}

theorem Made.text (h : Made (q, args) parts) (text : Str) :
    Made (q ++ text, args) (parts ++ [.sql text]) := by
  cases h
  rw [Made, query_append, values_append]
  exact congrArg₂ Prod.mk (congrArg _ (List.append_nil text).symm) (List.append_nil _).symm

theorem Made.value (h : Made (q, args) parts) {written text : Str} (arg : Arg)
    (hwritten : written = text ++ [63]) :
    Made (q ++ written, args ++ [arg]) (parts ++ condition text arg) := by
  cases h
  subst hwritten
  rw [Made, query_append, values_append]
  rfl

theorem Made.nil (text : Str) : Made (text, []) [.sql text] := by
  rw [Made]
  exact congrArg₂ Prod.mk (List.append_nil text).symm rfl

theorem Made.aligned {s : Statement} (h : Made s parts) (hsound : ∀ p ∈ parts, p.Sound) :
    Aligned s parts := by
  rw [h]
  exact Placeholders.aligned hsound

theorem sound_append {rest : List Part} (h : ∀ p ∈ parts, p.Sound)
    (hrest : ∀ p ∈ rest, p.Sound) : ∀ p ∈ parts ++ rest, p.Sound := by
  intro p hp
  rcases List.mem_append.mp hp with hp | hp
  · exact h p hp
  · exact hrest p hp

theorem sound_text {text : Str} (h : quiet text = true) : ∀ p ∈ [Part.sql text], p.Sound := by
  intro p hp
  rw [List.mem_singleton.mp hp]
  exact h

theorem sound_condition {text : Str} (h : quiet text = true) (arg : Arg) :
    ∀ p ∈ condition text arg, p.Sound := by
  intro p hp
  rcases List.mem_cons.mp hp with rfl | hp
  · exact h
  · rw [List.mem_singleton.mp hp]
    exact trivial

theorem sound_if {c : Prop} [Decidable c] (h : ∀ p ∈ parts, p.Sound) :
    ∀ p ∈ (if c then parts else []), p.Sound := by
  split
  · exact h
  · simp

end Made

end Placeholders
