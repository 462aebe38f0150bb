import ShortQ.GoText

/-! # Markup and the values written into it

The part of a browser's tokenizer that plain templates stay in: tags in lower case, attributes in
double quotes or without a value, five named references. Whatever leaves this part is not read, so
what is read here is what a browser reads. -/
namespace Markup

open GoText (Str lit)

/-- The bytes of a literal without decoding it first. -/
theorem lit_bytes (s : String) : lit s = s.toByteArray.data.toList := by
  unfold lit
  conv_rhs => rw [← String.ofList_toList (s := s)]
  simp [String.ofList, List.utf8Encode]

inductive Token where
  | startTag (name : Str) (attrs : List (Str × Str))
  | endTag (name : Str)
  | char (b : UInt8)
  deriving DecidableEq, Repr

/-- A start tag whose attributes are being read. -/
structure Tag where
  name : Str
  attrs : List (Str × Str) := []
  deriving DecidableEq, Repr

/-- Where the tokenizer is; within an element that holds text only, its name is kept. -/
inductive Mode where
  | data (within : Option Str)
  | reference (within : Option Str) (name : Str)
  | tagOpen (within : Option Str)
  | endTag (within : Option Str) (name : Str)
  | tagName (name : Str)
  | beforeAttr (tag : Tag)
  | attrName (tag : Tag) (name : Str)
  | beforeValue (tag : Tag) (name : Str)
  | value (tag : Tag) (name value : Str)
  | valueReference (tag : Tag) (name value ref : Str)
  | afterValue (tag : Tag)
  | selfClosing (tag : Tag)
  deriving DecidableEq, Repr

/-- Elements whose content a browser does not read as markup. -/
def rawText : List Str :=
  [lit "script", lit "style", lit "xmp", lit "iframe", lit "noembed", lit "noframes",
    lit "noscript", lit "plaintext"]

/-- Elements that hold text only. -/
def textOnly : List Str := [lit "title", lit "textarea"]

def named : List (Str × Str) :=
  [(lit "amp", lit "&"), (lit "lt", lit "<"), (lit "gt", lit ">"), (lit "quot", lit "\""),
    (lit "middot", lit "·")]

def lowerLetter (b : UInt8) : Bool := 97 ≤ b && b ≤ 122

def nameByte (b : UInt8) : Bool := lowerLetter b || GoText.isDigit b || b = 45

def nameLetter (b : UInt8) : Bool := nameByte b || GoText.isLetter b

/-- A tag is complete. -/
def Tag.close (tag : Tag) : Option (Mode × List Token) :=
  if tag.name ∈ rawText then none
  else if tag.name ∈ textOnly then
    some (.data (some tag.name), [.startTag tag.name tag.attrs])
  else some (.data none, [.startTag tag.name tag.attrs])

/-- An attribute is complete; one that is given twice is not read. -/
def Tag.add (tag : Tag) (name value : Str) : Option Tag :=
  if (tag.attrs.map Prod.fst).contains name then none
  else some { tag with attrs := tag.attrs ++ [(name, value)] }

def step : Mode → UInt8 → Option (Mode × List Token)
  | .data within, b =>
    if b = 38 then some (.reference within [], [])
    else if b = 60 then some (.tagOpen within, [])
    else if b = 0 then some (.data within, [])
    else some (.data within, [.char b])
  | .reference within name, b =>
    if b = 59 then (named.lookup name).map fun s => (.data within, s.map .char)
    else if nameByte b then some (.reference within (name ++ [b]), [])
    else none
  | .tagOpen within, b =>
    if b = 47 then some (.endTag within [], [])
    else if lowerLetter b && within.isNone then some (.tagName [b], [])
    else none
  | .endTag within name, b =>
    if b = 62 then
      if name ≠ [] && within.all (· = name) then some (.data none, [.endTag name]) else none
    else if nameByte b then some (.endTag within (name ++ [b]), [])
    else none
  | .tagName name, b =>
    if b = 62 then Tag.close ⟨name, []⟩
    else if b = 32 then some (.beforeAttr ⟨name, []⟩, [])
    else if b = 47 then some (.selfClosing ⟨name, []⟩, [])
    else if nameByte b then some (.tagName (name ++ [b]), [])
    else none
  | .beforeAttr tag, b =>
    if b = 32 then some (.beforeAttr tag, [])
    else if b = 62 then tag.close
    else if b = 47 then some (.selfClosing tag, [])
    else if nameLetter b then some (.attrName tag [GoText.lowerByte b], [])
    else none
  | .attrName tag name, b =>
    if b = 61 then some (.beforeValue tag name, [])
    else if b = 32 then (tag.add name []).map fun tag => (.beforeAttr tag, [])
    else if b = 62 then (tag.add name []).bind Tag.close
    else if nameLetter b then some (.attrName tag (name ++ [GoText.lowerByte b]), [])
    else none
  | .beforeValue tag name, b =>
    if b = 34 then some (.value tag name [], []) else none
  | .value tag name value, b =>
    if b = 34 then (tag.add name value).map fun tag => (.afterValue tag, [])
    else if b = 38 then some (.valueReference tag name value [], [])
    else if b = 0 then some (.value tag name (value ++ [0xEF, 0xBF, 0xBD]), [])
    else some (.value tag name (value ++ [b]), [])
  | .valueReference tag name value ref, b =>
    if b = 59 then (named.lookup ref).map fun s => (.value tag name (value ++ s), [])
    else if nameByte b then some (.valueReference tag name value (ref ++ [b]), [])
    else none
  | .afterValue tag, b =>
    if b = 32 then some (.beforeAttr tag, [])
    else if b = 62 then tag.close
    else if b = 47 then some (.selfClosing tag, [])
    else none
  | .selfClosing tag, b => if b = 62 then tag.close else none

/-- The tokenizer, and whether a carriage return was just read: a line feed after it is part of
the same line end. -/
structure Reader where
  mode : Mode
  cr : Bool := false
  deriving DecidableEq, Repr

def Reader.start : Reader := ⟨.data none, false⟩

def feed (r : Reader) (b : UInt8) : Option (Reader × List Token) :=
  if b = 13 then (step r.mode 10).map fun x => (⟨x.1, true⟩, x.2)
  else if b = 10 && r.cr then some (⟨r.mode, false⟩, [])
  else (step r.mode b).map fun x => (⟨x.1, false⟩, x.2)

def run (r : Reader) : Str → Option (Reader × List Token)
  | [] => some (r, [])
  | b :: s => (feed r b).bind fun x => (run x.1 s).map fun y => (y.1, x.2 ++ y.2)

/-- The text is complete markup with these tokens. -/
def Reads (html : Str) (tokens : List Token) : Prop :=
  run .start html = some (.start, tokens)

theorem run_append (r : Reader) (s t : Str) :
    run r (s ++ t) = (run r s).bind fun x => (run x.1 t).map fun y => (y.1, x.2 ++ y.2) := by
  induction s generalizing r with
  | nil =>
    change run r t = (run r t).map fun y => (y.1, y.2)
    exact (Option.map_id' ..).symm
  | cons b s ih =>
    rw [List.cons_append, run, run]
    cases feed r b with
    | none => rfl
    | some x =>
      rw [Option.bind_some, Option.bind_some, ih x.1]
      cases run x.1 s with
      | none => rfl
      | some y =>
        rw [Option.bind_some, Option.map_some, Option.bind_some, Option.map_map]
        exact congrArg (Option.map · _) (funext fun z => by simp [List.append_assoc])

theorem Reads.nil : Reads [] [] := rfl

theorem Reads.append {s t : Str} {ts us : List Token} (hs : Reads s ts) (ht : Reads t us) :
    Reads (s ++ t) (ts ++ us) := by
  unfold Reads
  rw [run_append, hs]
  change Option.map _ (run .start t) = _
  rw [ht]
  rfl

/-! ## Documents -/

inductive Node where
  | text (s : Str)
  | void (name : Str) (attrs : List (Str × Str))
  | element (name : Str) (attrs : List (Str × Str)) (children : List Node)
  | fragment (nodes : List Node)

mutual

/-- The tokens of a node, before more. -/
def Node.tokens : Node → List Token → List Token
  | .text s, more => s.map .char ++ more
  | .void name attrs, more => .startTag name attrs :: more
  | .element name attrs children, more =>
    .startTag name attrs :: Node.tokensAll children (.endTag name :: more)
  | .fragment nodes, more => Node.tokensAll nodes more

def Node.tokensAll : List Node → List Token → List Token
  | [], more => more
  | node :: nodes, more => node.tokens (Node.tokensAll nodes more)

end

mutual

theorem Node.tokens_append (node : Node) (more rest : List Token) :
    node.tokens (more ++ rest) = node.tokens more ++ rest := by
  cases node with
  | text s => rw [Node.tokens, Node.tokens, List.append_assoc]
  | void name attrs => rfl
  | element name attrs children =>
    rw [Node.tokens, Node.tokens, List.cons_append, ← Node.tokensAll_append]
    rfl
  | fragment nodes =>
    rw [Node.tokens, Node.tokens]
    exact Node.tokensAll_append nodes more rest

theorem Node.tokensAll_append (nodes : List Node) (more rest : List Token) :
    Node.tokensAll nodes (more ++ rest) = Node.tokensAll nodes more ++ rest := by
  cases nodes with
  | nil => rfl
  | cons node nodes =>
    rw [Node.tokensAll, Node.tokensAll, Node.tokensAll_append nodes, Node.tokens_append node]

end

/-- The text is markup for these nodes. -/
def Shows (html : Str) (nodes : List Node) : Prop := Reads html (Node.tokensAll nodes [])

theorem Shows.nil : Shows [] [] := rfl

theorem tokensAll_eq (nodes : List Node) (more : List Token) :
    Node.tokensAll nodes more = Node.tokensAll nodes [] ++ more :=
  Node.tokensAll_append nodes [] more

theorem tokensAll_both (a b : List Node) (more : List Token) :
    Node.tokensAll (a ++ b) more = Node.tokensAll a (Node.tokensAll b more) := by
  induction a with
  | nil => rfl
  | cons node a ih => rw [List.cons_append, Node.tokensAll, Node.tokensAll, ih]

theorem Shows.append {s t : Str} {a b : List Node} (hs : Shows s a) (ht : Shows t b) :
    Shows (s ++ t) (a ++ b) := by
  unfold Shows
  rw [tokensAll_both, tokensAll_eq]
  exact Reads.append hs ht

theorem Shows.flatMap {α : Type} {f : α → Str} {nodes : α → List Node} {xs : List α}
    (h : ∀ x ∈ xs, Shows (f x) (nodes x)) : Shows (xs.flatMap f) (xs.flatMap nodes) := by
  induction xs with
  | nil => exact .nil
  | cons x xs ih =>
    exact (h x List.mem_cons_self).append (ih fun y hy => h y (List.mem_cons_of_mem x hy))

/-! ## Values in templates -/

/-- `esc`: the four characters that mean something in text and in quoted attributes. -/
def escByte (b : UInt8) : Str :=
  if b = 38 then lit "&amp;"
  else if b = 60 then lit "&lt;"
  else if b = 62 then lit "&gt;"
  else if b = 34 then lit "&quot;"
  else [b]

def esc (s : Str) : Str := s.flatMap escByte

/-- One byte as a browser reads line ends, after a carriage return or not. -/
def lineByte (cr : Bool) (b : UInt8) : Str :=
  if b = 13 then [10] else if b = 10 && cr then [] else [b]

def lineEnds (cr : Bool) : Str → Str
  | [] => []
  | b :: s => lineByte cr b ++ lineEnds (b = 13) s

def endsInCr (cr : Bool) : Str → Bool
  | [] => cr
  | b :: s => endsInCr (b = 13) s

/-- What a browser shows of a text. -/
def textOf (s : Str) : Str := (lineEnds false s).filter (· ≠ 0)

def valueByte (b : UInt8) : Str := if b = 0 then [0xEF, 0xBF, 0xBD] else [b]

/-- The value of an attribute. -/
def valueOf (s : Str) : Str := (lineEnds false s).flatMap valueByte

/-- A text that needs no escaping: a number, a date. -/
def inert (b : UInt8) : Bool :=
  b ≠ 0 && b ≠ 10 && b ≠ 13 && b ≠ 34 && b ≠ 38 && b ≠ 60 && b ≠ 62

abbrev Inert : Type := {s : Str // ∀ b ∈ s, inert b = true}

inductive Piece where
  | markup (s : Str)
  | escaped (s : Str)
  | plain (s : Inert)
  | html (s : Str)

def Piece.text : Piece → Str
  | .markup s => s
  | .escaped s => esc s
  | .plain s => s.val
  | .html s => s

abbrev Template := List Piece

def Template.html (t : Template) : Str := t.flatMap Piece.text

/-- The markup a template takes as it is. -/
def Template.parts (t : Template) : List Str :=
  t.filterMap fun
    | .html s => some s
    | _ => none

/-- Nothing that follows a value can end its line. -/
def settles : Template → Bool
  | .markup (b :: _) :: _ => b ≠ 10
  | _ => false

/-- A value where a value may stand: in text, or in quotes. -/
def Reader.fill (r : Reader) (text value : Str) : Option (Reader × List Token) :=
  match r with
  | ⟨.data within, false⟩ => some (⟨.data within, false⟩, text.map .char)
  | ⟨.value tag name before, false⟩ => some (⟨.value tag name (before ++ value), false⟩, [])
  | _ => none

/-- A template read with its values unread, and for each part the nodes it shows. -/
def Template.read (r : Reader) : List (List Node) → Template → Option (Reader × List Token)
  | [], [] => some (r, [])
  | _ :: _, [] => none
  | inner, .markup s :: t =>
    (run r s).bind fun x => (Template.read x.1 inner t).map fun y => (y.1, x.2 ++ y.2)
  | inner, .escaped s :: t =>
    if settles t then
      (r.fill (textOf s) (valueOf s)).bind fun x =>
        (Template.read x.1 inner t).map fun y => (y.1, x.2 ++ y.2)
    else none
  | inner, .plain s :: t =>
    (r.fill s.val s.val).bind fun x =>
      (Template.read x.1 inner t).map fun y => (y.1, x.2 ++ y.2)
  | nodes :: inner, .html _ :: t =>
    if r = .start then (Template.read .start inner t).map fun y => (y.1, Node.tokensAll nodes y.2)
    else none
  | [], .html _ :: _ => none

/-! A value leaves the tokenizer where it was. -/

section

variable {within : Option Str} {tag : Tag} {name value : Str} {r r' : Reader}
  {ts : List Token} {t : Template}

theorem run_single {b : UInt8} (h : feed r b = some (r', ts)) : run r [b] = some (r', ts) := by
  rw [run, h, Option.bind_some, run, Option.map_some, List.append_nil]

theorem run_two {s t : Str} {r'' : Reader} {us : List Token} (hs : run r s = some (r', ts))
    (ht : run r' t = some (r'', us)) : run r (s ++ t) = some (r'', ts ++ us) := by
  rw [run_append, hs, Option.bind_some, ht, Option.map_some]

/-- A byte that stands for itself, and where a value may stand. -/
theorem feed_text {b : UInt8} (h38 : b ≠ 38) (h60 : b ≠ 60) (cr : Bool) :
    feed ⟨.data within, cr⟩ b =
      some (⟨.data within, b = 13⟩, ((lineByte cr b).filter (· ≠ 0)).map .char) := by
  unfold feed lineByte
  by_cases h13 : b = 13
  · subst h13
    rfl
  · by_cases h10 : b = 10
    · subst h10
      cases cr <;> rfl
    · by_cases h0 : b = 0
      · subst h0
        rfl
      · simp [h13, h10, h0, h38, h60, step]

theorem feed_value {b : UInt8} (h38 : b ≠ 38) (h34 : b ≠ 34) (cr : Bool) :
    feed ⟨.value tag name value, cr⟩ b =
      some (⟨.value tag name (value ++ (lineByte cr b).flatMap valueByte), b = 13⟩, []) := by
  unfold feed lineByte
  by_cases h13 : b = 13
  · subst h13
    rfl
  · by_cases h10 : b = 10
    · subst h10
      cases cr
      · rfl
      · simp
    · by_cases h0 : b = 0
      · subst h0
        rfl
      · simp [h13, h10, h0, h38, h34, step, valueByte]

theorem run_escByte_text (cr : Bool) (b : UInt8) :
    run ⟨.data within, cr⟩ (escByte b) =
      some (⟨.data within, b = 13⟩, ((lineByte cr b).filter (· ≠ 0)).map .char) := by
  unfold escByte
  split_ifs with h38 h60 h62 h34
  · subst h38
    cases cr <;> rfl
  · subst h60
    cases cr <;> rfl
  · subst h62
    cases cr <;> rfl
  · subst h34
    cases cr <;> rfl
  · exact run_single (feed_text h38 h60 cr)

theorem run_escByte_value (cr : Bool) (b : UInt8) :
    run ⟨.value tag name value, cr⟩ (escByte b) =
      some (⟨.value tag name (value ++ (lineByte cr b).flatMap valueByte), b = 13⟩, []) := by
  unfold escByte
  split_ifs with h38 h60 h62 h34
  · subst h38
    cases cr <;> rfl
  · subst h60
    cases cr <;> rfl
  · subst h62
    cases cr <;> rfl
  · subst h34
    cases cr <;> rfl
  · exact run_single (feed_value h38 h34 cr)

theorem run_esc_text (s : Str) (cr : Bool) :
    run ⟨.data within, cr⟩ (esc s) =
      some (⟨.data within, endsInCr cr s⟩, ((lineEnds cr s).filter (· ≠ 0)).map .char) := by
  induction s generalizing cr with
  | nil => rfl
  | cons b s ih =>
    rw [lineEnds, List.filter_append, List.map_append]
    exact run_two (run_escByte_text cr b) (ih (b = 13))

theorem run_esc_value (s : Str) (value : Str) (cr : Bool) :
    run ⟨.value tag name value, cr⟩ (esc s) =
      some (⟨.value tag name (value ++ (lineEnds cr s).flatMap valueByte), endsInCr cr s⟩, []) := by
  induction s generalizing value cr with
  | nil =>
    rw [lineEnds, List.flatMap_nil, List.append_nil]
    rfl
  | cons b s ih =>
    rw [lineEnds, List.flatMap_append, ← List.append_assoc]
    exact run_two (run_escByte_value cr b) (ih _ (b = 13))

theorem inert_cases {b : UInt8} (h : inert b = true) :
    b ≠ 0 ∧ b ≠ 10 ∧ b ≠ 13 ∧ b ≠ 34 ∧ b ≠ 38 ∧ b ≠ 60 := by
  simp only [inert, Bool.and_eq_true, decide_eq_true_eq] at h
  exact ⟨h.1.1.1.1.1.1, h.1.1.1.1.1.2, h.1.1.1.1.2, h.1.1.1.2, h.1.1.2, h.1.2⟩

theorem lineByte_inert {b : UInt8} (h : inert b = true) : lineByte false b = [b] := by
  obtain ⟨-, -, h13, -⟩ := inert_cases h
  rw [lineByte, if_neg h13, Bool.and_false, if_neg Bool.false_ne_true]

theorem run_inert_text {s : Str} (h : ∀ b ∈ s, inert b = true) :
    run ⟨.data within, false⟩ s = some (⟨.data within, false⟩, s.map .char) := by
  induction s with
  | nil => rfl
  | cons b s ih =>
    have hb := h b List.mem_cons_self
    obtain ⟨h0, -, h13, -, h38, h60⟩ := inert_cases hb
    have hfeed := @feed_text within b h38 h60 false
    rw [lineByte_inert hb, decide_eq_false h13, List.filter_cons_of_pos (by simpa using h0)]
      at hfeed
    exact run_two (run_single hfeed) (ih fun c hc => h c (List.mem_cons_of_mem b hc))

theorem run_inert_value {s : Str} (h : ∀ b ∈ s, inert b = true) (value : Str) :
    run ⟨.value tag name value, false⟩ s =
      some (⟨.value tag name (value ++ s), false⟩, []) := by
  induction s generalizing value with
  | nil =>
    rw [List.append_nil]
    rfl
  | cons b s ih =>
    have hb := h b List.mem_cons_self
    obtain ⟨h0, -, h13, h34, h38, -⟩ := inert_cases hb
    have hfeed := @feed_value tag name value b h38 h34 false
    rw [lineByte_inert hb, decide_eq_false h13, List.flatMap_singleton, valueByte, if_neg h0]
      at hfeed
    have hrest := ih (fun c hc => h c (List.mem_cons_of_mem b hc)) (value ++ [b])
    rw [List.append_assoc] at hrest
    exact run_two (run_single hfeed) hrest

/-- What follows a value does not see how the value ended. -/
theorem run_settled {s : Str} {b : UInt8} (hb : b ≠ 10) (m : Mode) (cr : Bool) :
    run ⟨m, cr⟩ (b :: s) = run ⟨m, false⟩ (b :: s) := by
  rw [run, run]
  simp [feed, hb]

theorem settles_html (h : settles t = true) : ∃ b s, b ≠ 10 ∧ t.html = b :: s := by
  unfold settles at h
  split at h
  · rename_i b s rest
    exact ⟨b, s ++ Template.html rest, of_decide_eq_true h, rfl⟩
  · cases h

theorem fill_cases {text : Str} (h : r.fill text value = some (r', ts)) :
    (∃ within, r = ⟨.data within, false⟩ ∧ r' = r ∧ ts = text.map .char) ∨
    ∃ tag name before, r = ⟨.value tag name before, false⟩ ∧
      r' = ⟨.value tag name (before ++ value), false⟩ ∧ ts = [] := by
  unfold Reader.fill at h
  split at h
  · cases h
    exact Or.inl ⟨_, rfl, rfl, rfl⟩
  · cases h
    exact Or.inr ⟨_, _, _, rfl, rfl, rfl⟩
  · cases h

theorem run_escaped {s : Str} (hfill : r.fill (textOf s) (valueOf s) = some (r', ts)) :
    run r (esc s) = some (⟨r'.mode, endsInCr false s⟩, ts) ∧ r'.cr = false := by
  rcases fill_cases hfill with ⟨within, rfl, rfl, rfl⟩ | ⟨tag, name, before, rfl, rfl, rfl⟩
  · exact ⟨run_esc_text s false, rfl⟩
  · exact ⟨run_esc_value s before false, rfl⟩

theorem run_plain {s : Inert} (hfill : r.fill s.val s.val = some (r', ts)) :
    run r s.val = some (r', ts) := by
  rcases fill_cases hfill with ⟨within, rfl, rfl, rfl⟩ | ⟨tag, name, before, rfl, rfl, rfl⟩
  · exact run_inert_text s.property
  · exact run_inert_value s.property before

/-- The template read with its values unread is what the whole text reads as. -/
theorem Template.run_html {inner : List (List Node)}
    (hparts : List.Forall₂ Shows (Template.parts t) inner)
    (h : Template.read r inner t = some (r', ts)) : run r (Template.html t) = some (r', ts) := by
  induction t generalizing r ts inner with
  | nil =>
    cases hparts
    exact h
  | cons piece t ih =>
    cases piece with
    | markup s =>
      rw [Template.read] at h
      obtain ⟨⟨r₁, us⟩, hfirst, hrest⟩ := Option.bind_eq_some_iff.mp h
      obtain ⟨y, hy, heq⟩ := Option.map_eq_some_iff.mp hrest
      cases heq
      exact run_two hfirst (ih hparts hy)
    | escaped s =>
      rw [Template.read] at h
      obtain ⟨hsettles, h⟩ := Option.ite_none_right_eq_some.mp h
      obtain ⟨⟨⟨m, cr⟩, us⟩, hfirst, hrest⟩ := Option.bind_eq_some_iff.mp h
      obtain ⟨y, hy, heq⟩ := Option.map_eq_some_iff.mp hrest
      cases heq
      obtain ⟨hrun, hcr⟩ := run_escaped hfirst
      cases hcr
      obtain ⟨b, rest, hb, hhtml⟩ := settles_html hsettles
      have htail := ih hparts hy
      refine run_two hrun ?_
      change run _ (Template.html t) = _
      rw [hhtml] at htail ⊢
      rw [run_settled hb]
      exact htail
    | plain s =>
      rw [Template.read] at h
      obtain ⟨⟨r₁, us⟩, hfirst, hrest⟩ := Option.bind_eq_some_iff.mp h
      obtain ⟨y, hy, heq⟩ := Option.map_eq_some_iff.mp hrest
      cases heq
      exact run_two (run_plain hfirst) (ih hparts hy)
    | html s =>
      cases hparts with
      | @cons _ nodes _ inner hs hrest =>
        rw [Template.read] at h
        obtain ⟨rfl, h⟩ := Option.ite_none_right_eq_some.mp h
        obtain ⟨y, hy, heq⟩ := Option.map_eq_some_iff.mp h
        cases heq
        rw [tokensAll_eq]
        exact run_two hs (ih hrest hy)

theorem Template.shows {inner : List (List Node)} {nodes : List Node}
    (hparts : List.Forall₂ Shows (Template.parts t) inner)
    (h : Template.read .start inner t = some (.start, Node.tokensAll nodes [])) :
    Shows (Template.html t) nodes :=
  Template.run_html hparts h

end

/-! ## What markup can do -/

/-- The values of the attributes whose name meets the condition. -/
def chosen (p : Str → Bool) (attrs : List (Str × Str)) : List Str :=
  (attrs.filter fun a => p a.1).map Prod.snd

def Token.values (p : Str → Bool) : Token → List Str
  | .startTag _ attrs => chosen p attrs
  | _ => []

mutual

def Node.values (p : Str → Bool) : Node → List Str
  | .text _ => []
  | .void _ attrs => chosen p attrs
  | .element _ attrs children => chosen p attrs ++ Node.valuesAll p children
  | .fragment nodes => Node.valuesAll p nodes

def Node.valuesAll (p : Str → Bool) : List Node → List Str
  | [] => []
  | node :: nodes => node.values p ++ Node.valuesAll p nodes

end

theorem values_chars (p : Str → Bool) (s : Str) (more : List Token) :
    (s.map Token.char ++ more).flatMap (Token.values p) = more.flatMap (Token.values p) := by
  rw [List.flatMap_append, List.flatMap_map]
  simp [Token.values]

mutual

theorem Node.values_tokens (p : Str → Bool) (node : Node) (more : List Token) :
    (node.tokens more).flatMap (Token.values p) =
      node.values p ++ more.flatMap (Token.values p) := by
  cases node with
  | text s => exact values_chars p s more
  | void name attrs => rfl
  | element name attrs children =>
    rw [Node.tokens, List.flatMap_cons, Node.valuesAll_tokens p children, Node.values,
      List.append_assoc]
    rfl
  | fragment nodes => exact Node.valuesAll_tokens p nodes more

theorem Node.valuesAll_tokens (p : Str → Bool) (nodes : List Node) (more : List Token) :
    (Node.tokensAll nodes more).flatMap (Token.values p) =
      Node.valuesAll p nodes ++ more.flatMap (Token.values p) := by
  cases nodes with
  | nil => rfl
  | cons node nodes =>
    rw [Node.tokensAll, Node.values_tokens p node, Node.valuesAll_tokens p nodes, Node.valuesAll,
      List.append_assoc]

end

theorem valuesAll_append (p : Str → Bool) (a b : List Node) :
    Node.valuesAll p (a ++ b) = Node.valuesAll p a ++ Node.valuesAll p b := by
  induction a with
  | nil => rfl
  | cons node a ih => rw [List.cons_append, Node.valuesAll, ih, Node.valuesAll, List.append_assoc]

theorem mem_valuesAll_flatMap {α : Type} {p : Str → Bool} {f : α → List Node} {xs : List α}
    {s : Str} (h : s ∈ Node.valuesAll p (xs.flatMap f)) : ∃ x ∈ xs, s ∈ Node.valuesAll p (f x) := by
  induction xs with
  | nil => cases h
  | cons x xs ih =>
    rw [List.flatMap_cons, valuesAll_append] at h
    rcases List.mem_append.mp h with hfirst | hrest
    · exact ⟨x, List.mem_cons_self, hfirst⟩
    · obtain ⟨y, hy, hs⟩ := ih hrest
      exact ⟨y, List.mem_cons_of_mem x hy, hs⟩

def isHandler (name : Str) : Bool := name.take 2 = lit "on"

def isAddress (name : Str) : Bool :=
  name ∈ [lit "href", lit "src", lit "action", lit "formaction", lit "srcdoc"]

/-- The scripts that the elements run when something happens to them. -/
def handlers (tokens : List Token) : List Str := tokens.flatMap (Token.values isHandler)

def addresses (tokens : List Token) : List Str := tokens.flatMap (Token.values isAddress)

theorem handlers_tokensAll (nodes : List Node) :
    handlers (Node.tokensAll nodes []) = Node.valuesAll isHandler nodes := by
  rw [handlers, Node.valuesAll_tokens, List.flatMap_nil, List.append_nil]

theorem addresses_tokensAll (nodes : List Node) :
    addresses (Node.tokensAll nodes []) = Node.valuesAll isAddress nodes := by
  rw [addresses, Node.valuesAll_tokens, List.flatMap_nil, List.append_nil]

/-! No element of what is read holds a script or a style sheet. -/

def Tame (tokens : List Token) : Prop :=
  ∀ name attrs, .startTag name attrs ∈ tokens → name ∉ rawText

theorem tame_close {tag : Tag} {m : Mode} {ts : List Token} (h : tag.close = some (m, ts)) :
    Tame ts := by
  intro name attrs hmem
  unfold Tag.close at h
  split_ifs at h with hraw htext
  · cases h
    rw [List.mem_singleton] at hmem
    cases hmem
    exact hraw
  · cases h
    rw [List.mem_singleton] at hmem
    cases hmem
    exact hraw

theorem tame_chars {ts : List Token} (h : ∀ t ∈ ts, ∃ b, t = .char b) : Tame ts := by
  intro name attrs hmem
  obtain ⟨b, hb⟩ := h _ hmem
  cases hb

theorem tame_nil : Tame [] := fun _ _ hmem => absurd hmem List.not_mem_nil

theorem tame_some {m m' : Mode} {ts : List Token} (h : some (m, []) = some (m', ts)) :
    Tame ts := by
  cases h
  exact tame_nil

theorem tame_map {α : Type} {o : Option α} {f : α → Mode} {m : Mode} {ts : List Token}
    (h : (o.map fun a => (f a, ([] : List Token))) = some (m, ts)) : Tame ts := by
  obtain ⟨a, -, ha⟩ := Option.map_eq_some_iff.mp h
  cases ha
  exact tame_nil

theorem tame_step {m m' : Mode} {b : UInt8} {ts : List Token} (h : step m b = some (m', ts)) :
    Tame ts := by
  cases m with
  | data within =>
    rw [step] at h
    split_ifs at h
    · exact tame_some h
    · exact tame_some h
    · exact tame_some h
    · cases h
      exact tame_chars fun t ht => ⟨b, List.mem_singleton.mp ht⟩
  | reference within name =>
    rw [step] at h
    split_ifs at h
    · obtain ⟨s, -, hs⟩ := Option.map_eq_some_iff.mp h
      cases hs
      exact tame_chars fun t ht => by
        obtain ⟨c, -, rfl⟩ := List.mem_map.mp ht
        exact ⟨c, rfl⟩
    · exact tame_some h
  | tagOpen within =>
    rw [step] at h
    split_ifs at h
    · exact tame_some h
    · exact tame_some h
  | endTag within name =>
    rw [step] at h
    split_ifs at h
    · cases h
      intro tag attrs hmem
      rw [List.mem_singleton] at hmem
      cases hmem
    · exact tame_some h
  | tagName name =>
    rw [step] at h
    split_ifs at h
    · exact tame_close h
    · exact tame_some h
    · exact tame_some h
    · exact tame_some h
  | beforeAttr tag =>
    rw [step] at h
    split_ifs at h
    · exact tame_some h
    · exact tame_close h
    · exact tame_some h
    · exact tame_some h
  | attrName tag name =>
    rw [step] at h
    split_ifs at h
    · exact tame_some h
    · exact tame_map h
    · obtain ⟨tag', -, hclose⟩ := Option.bind_eq_some_iff.mp h
      exact tame_close hclose
    · exact tame_some h
  | beforeValue tag name =>
    rw [step] at h
    split_ifs at h
    exact tame_some h
  | value tag name value =>
    rw [step] at h
    split_ifs at h
    · exact tame_map h
    · exact tame_some h
    · exact tame_some h
    · exact tame_some h
  | valueReference tag name value ref =>
    rw [step] at h
    split_ifs at h
    · exact tame_map h
    · exact tame_some h
  | afterValue tag =>
    rw [step] at h
    split_ifs at h
    · exact tame_some h
    · exact tame_close h
    · exact tame_some h
  | selfClosing tag =>
    rw [step] at h
    split_ifs at h
    exact tame_close h

theorem tame_feed {r r' : Reader} {b : UInt8} {ts : List Token} (h : feed r b = some (r', ts)) :
    Tame ts := by
  unfold feed at h
  split_ifs at h
  · obtain ⟨x, hx, heq⟩ := Option.map_eq_some_iff.mp h
    cases heq
    exact tame_step hx
  · cases h
    exact tame_nil
  · obtain ⟨x, hx, heq⟩ := Option.map_eq_some_iff.mp h
    cases heq
    exact tame_step hx

theorem tame_run {s : Str} {r r' : Reader} {ts : List Token} (h : run r s = some (r', ts)) :
    Tame ts := by
  induction s generalizing r ts with
  | nil =>
    cases h
    exact tame_nil
  | cons b s ih =>
    obtain ⟨x, hx, hrest⟩ := Option.bind_eq_some_iff.mp h
    obtain ⟨y, hy, heq⟩ := Option.map_eq_some_iff.mp hrest
    cases heq
    intro name attrs hmem
    rcases List.mem_append.mp hmem with hfirst | hlater
    · exact tame_feed hx name attrs hfirst
    · exact ih hy name attrs hlater

theorem Shows.tame {html : Str} {nodes : List Node} (h : Shows html nodes) :
    Tame (Node.tokensAll nodes []) :=
  tame_run h

end Markup
