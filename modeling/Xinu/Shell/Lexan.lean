import Xinu.Kernel.State
import Mathlib.Data.List.TakeWhile
import Mathlib.Tactic.Common

/-!
# The tokens of a command line

`lexan` goes through a line that ends at a newline or at a null byte. The line is the memory up to
a null byte, and `tokbuf` the bytes that have been stored in it, one behind the other.
-/

namespace Xinu.Shell.Lexan

open Xinu.Kernel.State (sysErr)

set_option autoImplicit false

section Definitions

def shellBuflen : Nat := 129

def shellMaxtok : Nat := 32

def nullch : UInt8 := 0

def newline : UInt8 := 10

def amper : UInt8 := 38

def blank : UInt8 := 32

def tab : UInt8 := 9

def squote : UInt8 := 39

def dquote : UInt8 := 34

def less : UInt8 := 60

def greater : UInt8 := 62

inductive TokTyp where
  | amper
  | less
  | greater
  | other
  deriving DecidableEq

/-- Each token has an entry in `tok` and one in `toktyp`. -/
structure Lexed where
  ntok : Nat
  tok : List Nat
  toktyp : List TokTyp
  tokbuf : List UInt8
  tlen : Nat
  deriving DecidableEq

namespace Lexed

variable (s : Lexed)

/-- The entries of a token, which will be at the next place of `tokbuf` -/
def start (typ : TokTyp) : Lexed :=
  { s with tok := s.tok ++ [s.tokbuf.length], toktyp := s.toktyp ++ [typ] }

def put (chars : List UInt8) : Lexed := { s with tokbuf := s.tokbuf ++ chars }

def count : Lexed := { s with ntok := s.ntok + 1 }

def finish : Int × Lexed := (s.ntok, { s with tlen := s.tokbuf.length })

end Lexed

def ends (ch : UInt8) : Bool := ch == newline || ch == nullch

def isBlank (ch : UInt8) : Bool := ch == blank || ch == tab

def isQuote (ch : UInt8) : Bool := ch == squote || ch == dquote

def symbolType (ch : UInt8) : Option TokTyp :=
  if ch = amper then some .amper
  else if ch = less then some .less
  else if ch = greater then some .greater
  else none

def inString (quote ch : UInt8) : Bool := ch != quote && ch != newline && ch != nullch

def inWord (ch : UInt8) : Bool :=
  ch != newline && ch != nullch && ch != less && ch != greater && ch != blank && ch != tab &&
    ch != amper && ch != squote && ch != dquote

def isAppended (ch : UInt8) : Bool := ch == squote || ch == dquote || ch == less || ch == greater

theorem tail_shorter {p : List UInt8} (goesOn : ¬ends (p.headD nullch) = true) :
    p.tail.length < p.length := by
  cases p with
  | nil => exact absurd rfl goesOn
  | cons ch rest => exact Nat.lt_succ_self _

/-- The loop over the tokens -/
def lexFrom (p : List UInt8) (s : Lexed) : Int × Lexed :=
  if ends (p.headD nullch) then s.finish
  else if shellMaxtok ≤ s.ntok then (sysErr, s)
  else
    let q := p.dropWhile isBlank
    let ch := q.headD nullch
    if _more : ends ch then s.finish
    else
      match symbolType ch with
      | some typ => lexFrom q.tail ((s.start typ).put [ch, nullch]).count
      | none =>
          let s := s.start .other
          if isQuote ch then
            let body := q.tail.takeWhile (inString ch)
            let rest := q.tail.dropWhile (inString ch)
            if rest.headD nullch ≠ ch then (sysErr, s.put body)
            else lexFrom rest.tail (s.put (body ++ [nullch])).count
          else
            let word := ch :: q.tail.takeWhile inWord
            let rest := q.tail.dropWhile inWord
            if isAppended (rest.headD nullch) then (sysErr, s.put word)
            else lexFrom rest (s.put (word ++ [nullch])).count
termination_by p.length
decreasing_by
  all_goals
    have first : (p.dropWhile isBlank).tail.length < (p.dropWhile isBlank).length :=
      tail_shorter _more
    have skipped := (List.dropWhile_sublist (l := p) isBlank).length_le
  · omega
  · have body := (List.dropWhile_sublist (l := (p.dropWhile isBlank).tail)
      (inString ((p.dropWhile isBlank).headD nullch))).length_le
    rw [List.length_tail]
    omega
  · have word := (List.dropWhile_sublist (l := (p.dropWhile isBlank).tail) inWord).length_le
    omega

def lexan (line : List UInt8) (tlen : Nat) : Int × Lexed := lexFrom line ⟨0, [], [], [], tlen⟩

end Definitions

section Grammar

structure Token where
  toktyp : TokTyp
  text : List UInt8

/-- Some tokens with the blanks between them, and the rest of the line -/
inductive Reads : List UInt8 → List Token → List UInt8 → Prop
  | nothing (p : List UInt8) : Reads p [] p
  | white {ch : UInt8} {p rest : List UInt8} {toks : List Token} (white : isBlank ch = true)
      (behind : Reads p toks rest) : Reads (ch :: p) toks rest
  | symbol {ch : UInt8} {typ : TokTyp} {p rest : List UInt8} {toks : List Token}
      (symbol : symbolType ch = some typ) (behind : Reads p toks rest) :
      Reads (ch :: p) (⟨typ, [ch]⟩ :: toks) rest
  | string {quote : UInt8} {body p rest : List UInt8} {toks : List Token}
      (quotes : isQuote quote = true) (inside : ∀ ch ∈ body, inString quote ch = true)
      (behind : Reads p toks rest) :
      Reads (quote :: (body ++ quote :: p)) (⟨.other, body⟩ :: toks) rest
  | word {ch : UInt8} {word p rest : List UInt8} {toks : List Token}
      (chars : ∀ c ∈ ch :: word, inWord c = true) (whole : inWord (p.headD nullch) = false)
      (apart : isAppended (p.headD nullch) = false) (behind : Reads p toks rest) :
      Reads (ch :: (word ++ p)) (⟨.other, ch :: word⟩ :: toks) rest

def AtEnd (p : List UInt8) : Prop := ends (p.headD nullch) = true

/-- The tokens of a line -/
def Tokens (line : List UInt8) (toks : List Token) : Prop :=
  ∃ rest, Reads line toks rest ∧ AtEnd rest

def Unterminated (p : List UInt8) : Prop :=
  ∃ quote body rest, isQuote quote = true ∧ (∀ ch ∈ body, inString quote ch = true) ∧ AtEnd rest ∧
    p = quote :: (body ++ rest)

/-- A word is directly followed by a quote, `<` or `>`. -/
def Appended (p : List UInt8) : Prop :=
  ∃ ch word rest, (∀ c ∈ ch :: word, inWord c = true) ∧ isAppended (rest.headD nullch) = true ∧
    p = ch :: (word ++ rest)

def Broken (line : List UInt8) : Prop :=
  ∃ toks rest, Reads line toks rest ∧ (Unterminated rest ∨ Appended rest)

/-- The characters in front of the end of a line -/
def lineText (line : List UInt8) : List UInt8 := line.takeWhile fun ch => !ends ch

/-- A text with a null byte behind it -/
def StringAt (buf : List UInt8) (place : Nat) (text : List UInt8) : Prop :=
  nullch ∉ text ∧ text ++ [nullch] <+: buf.drop place

structure Found (toks : List Token) (result : Int × Lexed) : Prop where
  ntok : result.1 = toks.length
  toktyp : result.2.toktyp = toks.map Token.toktyp
  texts : ∀ (i : Nat) (token : Token), toks[i]? = some token → ∃ place : Nat,
    result.2.tok[i]? = some place ∧ StringAt result.2.tokbuf place token.text
  tlen : result.2.tlen = result.2.tokbuf.length

/-- The lines that are refused are those that are broken or have too many tokens, the tokens of all
others are found, and nothing is written behind an array. -/
structure Exact (line : List UInt8) (tlen : Nat) : Prop where
  refuses : (lexan line tlen).1 = sysErr ↔
    Broken line ∨ ∃ toks, Tokens line toks ∧ shellMaxtok < toks.length
  finds : ∀ toks, Tokens line toks → toks.length ≤ shellMaxtok → Found toks (lexan line tlen)
  tokbuf : (lineText line).length ≤ shellBuflen →
    (lexan line tlen).2.tokbuf.length ≤ shellBuflen + shellMaxtok
  entries : (lexan line tlen).2.tok.length ≤ shellMaxtok ∧
    (lexan line tlen).2.toktyp.length ≤ shellMaxtok

/-- A blank follows on the last one of `SHELL_MAXTOK` tokens. -/
def TrailingBlank (line : List UInt8) : Prop :=
  ∃ toks ch rest, Tokens line toks ∧ toks.length = shellMaxtok ∧ isBlank ch = true ∧
    Reads line toks (ch :: rest)

end Grammar

section Steps

variable {p rest body word : List UInt8} {ch quote : UInt8} {typ : TokTyp} {s : Lexed}

/-- What is stored for a token -/
def Lexed.add (s : Lexed) (token : Token) : Lexed :=
  ((s.start token.toktyp).put (token.text ++ [nullch])).count

theorem stop_head {goesOn : UInt8 → Bool} (stops : goesOn nullch = false) (p : List UInt8) :
    goesOn ((p.dropWhile goesOn).headD nullch) = false := by
  induction p with
  | nil => exact stops
  | cons ch rest induction =>
      rw [List.dropWhile_cons]
      split
      · exact induction
      · rename_i stop
        exact Bool.eq_false_iff.mpr stop

theorem take_while_stop {goesOn : UInt8 → Bool} (all : ∀ ch ∈ body, goesOn ch = true)
    (stop : goesOn (rest.headD nullch) = false) :
    (body ++ rest).takeWhile goesOn = body ∧ (body ++ rest).dropWhile goesOn = rest := by
  induction body with
  | nil =>
      cases rest with
      | nil => exact ⟨rfl, rfl⟩
      | cons ch rest =>
          have stop : goesOn ch = false := stop
          simp [stop]
  | cons ch body induction =>
      obtain ⟨took, dropped⟩ := induction fun c member => all c (List.mem_cons_of_mem _ member)
      have first := all ch List.mem_cons_self
      simp [first, took, dropped]

theorem blank_goes_on (white : isBlank ch = true) : ends ch = false := by
  simp only [isBlank, Bool.or_eq_true, beq_iff_eq] at white
  rcases white with rfl | rfl <;> rfl

theorem symbol_cases (symbol : symbolType ch = some typ) :
    ends ch = false ∧ isBlank ch = false := by
  unfold symbolType at symbol
  split_ifs at symbol with first second third
  · subst first
    exact ⟨rfl, rfl⟩
  · subst second
    exact ⟨rfl, rfl⟩
  · subst third
    exact ⟨rfl, rfl⟩

theorem quote_cases (quotes : isQuote quote = true) :
    ends quote = false ∧ isBlank quote = false ∧ symbolType quote = none ∧ quote ≠ nullch := by
  simp only [isQuote, Bool.or_eq_true, beq_iff_eq] at quotes
  rcases quotes with rfl | rfl <;> decide

theorem plain_cases (plain : inWord ch = true) :
    ends ch = false ∧ isBlank ch = false ∧ symbolType ch = none ∧ isQuote ch = false := by
  simp only [inWord, Bool.and_eq_true, bne_iff_ne] at plain
  simp only [ends, isBlank, symbolType, isQuote, Bool.or_eq_false_iff, beq_eq_false_iff_ne]
  simp [plain]

theorem plain_of_others (goesOn : ends ch = false) (notWhite : isBlank ch = false)
    (notSymbol : symbolType ch = none) (notQuote : isQuote ch = false) : inWord ch = true := by
  simp only [ends, isBlank, isQuote, Bool.or_eq_false_iff, beq_eq_false_iff_ne] at *
  unfold symbolType at notSymbol
  split_ifs at notSymbol
  simp only [inWord, Bool.and_eq_true, bne_iff_ne]
  tauto

theorem lex_end (atEnd : AtEnd p) : lexFrom p s = s.finish := by
  rw [lexFrom]
  exact if_pos atEnd

/-- The number of the tokens is looked at before it is known that there is another one. -/
theorem lex_full (goesOn : ¬AtEnd p) (full : shellMaxtok ≤ s.ntok) : lexFrom p s = (sysErr, s) := by
  have some : ¬ends (p.headD nullch) = true := goesOn
  rw [lexFrom, if_neg some, if_pos full]

theorem lex_blank (white : isBlank ch = true) (more : s.ntok < shellMaxtok) :
    lexFrom (ch :: p) s = lexFrom p s := by
  have first : ¬ends ((ch :: p).headD nullch) = true := Bool.eq_false_iff.mp (blank_goes_on white)
  have skipped : (ch :: p).dropWhile isBlank = p.dropWhile isBlank := by simp [white]
  by_cases atEnd : AtEnd p
  · have same : p.dropWhile isBlank = p := by
      cases p with
      | nil => rfl
      | cons c rest =>
          have notWhite : isBlank c = false := by
            by_contra also
            rw [Bool.not_eq_false] at also
            exact absurd atEnd (Bool.eq_false_iff.mp (blank_goes_on also))
          simp [notWhite]
    rw [lex_end atEnd, lexFrom, if_neg first, if_neg (Nat.not_le.mpr more), skipped, same]
    exact dif_pos atEnd
  · have some : ¬ends (p.headD nullch) = true := atEnd
    rw [lexFrom, if_neg first, if_neg (Nat.not_le.mpr more), skipped]
    conv_rhs => rw [lexFrom, if_neg some, if_neg (Nat.not_le.mpr more)]

/-- The token at the start of a line that is not full -/
theorem lex_first (goesOn : ends ch = false) (notWhite : isBlank ch = false)
    (more : s.ntok < shellMaxtok) :
    lexFrom (ch :: p) s =
      match symbolType ch with
      | some typ => lexFrom p ((s.start typ).put [ch, nullch]).count
      | none =>
          if isQuote ch then
            if (p.dropWhile (inString ch)).headD nullch ≠ ch then
              (sysErr, (s.start .other).put (p.takeWhile (inString ch)))
            else lexFrom (p.dropWhile (inString ch)).tail
              ((s.start .other).put (p.takeWhile (inString ch) ++ [nullch])).count
          else if isAppended ((p.dropWhile inWord).headD nullch) then
            (sysErr, (s.start .other).put (ch :: p.takeWhile inWord))
          else lexFrom (p.dropWhile inWord)
            ((s.start .other).put (ch :: p.takeWhile inWord ++ [nullch])).count := by
  have first : ¬ends ((ch :: p).headD nullch) = true := Bool.eq_false_iff.mp goesOn
  have skipped : (ch :: p).dropWhile isBlank = ch :: p := by simp [notWhite]
  rw [lexFrom, if_neg first, if_neg (Nat.not_le.mpr more)]
  simp only [skipped, dif_neg first]
  rfl

theorem lex_symbol (symbol : symbolType ch = some typ) (more : s.ntok < shellMaxtok) :
    lexFrom (ch :: p) s = lexFrom p (s.add ⟨typ, [ch]⟩) := by
  obtain ⟨goesOn, notWhite⟩ := symbol_cases symbol
  rw [lex_first goesOn notWhite more, symbol]
  rfl

theorem lex_string (quotes : isQuote quote = true)
    (inside : ∀ ch ∈ body, inString quote ch = true) (more : s.ntok < shellMaxtok) :
    lexFrom (quote :: (body ++ quote :: p)) s = lexFrom p (s.add ⟨.other, body⟩) := by
  obtain ⟨goesOn, notWhite, notSymbol, _⟩ := quote_cases quotes
  have stop : inString quote ((quote :: p).headD nullch) = false := by simp [inString]
  obtain ⟨took, dropped⟩ := take_while_stop inside stop
  rw [lex_first goesOn notWhite more, notSymbol]
  simp only [if_pos quotes, took, dropped]
  exact if_neg (not_not.mpr rfl)

theorem lex_word (chars : ∀ c ∈ ch :: word, inWord c = true)
    (whole : inWord (p.headD nullch) = false) (apart : isAppended (p.headD nullch) = false)
    (more : s.ntok < shellMaxtok) :
    lexFrom (ch :: (word ++ p)) s = lexFrom p (s.add ⟨.other, ch :: word⟩) := by
  obtain ⟨goesOn, notWhite, notSymbol, notQuote⟩ := plain_cases (chars ch List.mem_cons_self)
  obtain ⟨took, dropped⟩ :=
    take_while_stop (fun c member => chars c (List.mem_cons_of_mem _ member)) whole
  rw [lex_first goesOn notWhite more, notSymbol]
  simp only [notQuote, Bool.false_eq_true, if_false, took, dropped, apart]
  rfl

/-- A line that is broken at its start leaves the entries of a token that is not counted. -/
theorem lex_broken (broken : Unterminated p ∨ Appended p) (more : s.ntok < shellMaxtok) :
    ∃ chars, chars.length ≤ (lineText p).length ∧
      lexFrom p s = (sysErr, (s.start .other).put chars) := by
  rcases broken with ⟨quote, body, rest, quotes, inside, atEnd, rfl⟩ |
    ⟨ch, word, rest, chars, appended, rfl⟩
  · obtain ⟨goesOn, notWhite, notSymbol, proper⟩ := quote_cases quotes
    have stop : inString quote (rest.headD nullch) = false := by
      unfold AtEnd at atEnd
      simp only [ends, Bool.or_eq_true, beq_iff_eq] at atEnd
      simp only [inString, Bool.and_eq_false_iff, bne_eq_false_iff_eq]
      tauto
    obtain ⟨took, dropped⟩ := take_while_stop inside stop
    have missing : rest.headD nullch ≠ quote := by
      intro same
      unfold AtEnd at atEnd
      rw [same, goesOn] at atEnd
      cases atEnd
    refine ⟨body, ?_, ?_⟩
    · have proper : ∀ ch ∈ body, (!ends ch) = true := by
        intro ch member
        have inside := inside ch member
        simp only [inString, Bool.and_eq_true, bne_iff_ne] at inside
        simp [ends, inside]
      have stop : (!ends (rest.headD nullch)) = false := by
        rw [show ends (rest.headD nullch) = true from atEnd]
        rfl
      have text := (@take_while_stop rest body (fun ch => !ends ch) proper stop).1
      simp [lineText, goesOn, text]
    · rw [lex_first goesOn notWhite more, notSymbol]
      simp only [if_pos quotes, took, dropped]
      exact if_pos missing
  · obtain ⟨goesOn, notWhite, notSymbol, notQuote⟩ := plain_cases (chars ch List.mem_cons_self)
    have whole : inWord (rest.headD nullch) = false := by
      simp only [isAppended, Bool.or_eq_true, beq_iff_eq] at appended
      simp only [inWord, Bool.and_eq_false_iff, bne_eq_false_iff_eq]
      tauto
    obtain ⟨took, dropped⟩ :=
      take_while_stop (fun c member => chars c (List.mem_cons_of_mem _ member)) whole
    refine ⟨ch :: word, ?_, ?_⟩
    · have proper : ∀ c ∈ ch :: word, (!ends c) = true := by
        intro c member
        simp [plain_cases (chars c member)]
      have text : lineText (ch :: (word ++ rest)) = ch :: word ++ lineText rest :=
        List.takeWhile_append_of_pos proper
      rw [text, List.length_append]
      exact Nat.le_add_right _ _
    · rw [lex_first goesOn notWhite more, notSymbol]
      simp only [notQuote, Bool.false_eq_true, if_false, took, dropped, appended, if_true]

/-- A token at the start of a line, and the line behind it -/
structure Starts (p : List UInt8) (token : Token) (behind : List UInt8) : Prop where
  stores : ∀ s : Lexed, s.ntok < shellMaxtok → lexFrom p s = lexFrom behind (s.add token)
  reads : ∀ toks rest, Reads behind toks rest → Reads p (token :: toks) rest
  proper : nullch ∉ token.text
  symbol : token.toktyp ≠ .other → token.text.length = 1
  split : ∃ front, p = front ++ behind ∧ front ≠ [] ∧ (∀ ch ∈ front, ends ch = false) ∧
    token.text.length ≤ front.length

theorem symbol_starts (symbol : symbolType ch = some typ) (p : List UInt8) :
    Starts (ch :: p) ⟨typ, [ch]⟩ p := by
  refine ⟨fun _ more => lex_symbol symbol more, fun _ _ => .symbol symbol, ?_, fun _ => rfl, [ch],
    rfl, List.cons_ne_nil _ _, ?_, Nat.le_refl _⟩
  · rintro (_ | ⟨_, none⟩)
    · cases symbol
    · cases none
  · intro c member
    rw [List.mem_singleton.mp member]
    exact (symbol_cases symbol).1

theorem string_starts (quotes : isQuote quote = true)
    (inside : ∀ ch ∈ body, inString quote ch = true) (p : List UInt8) :
    Starts (quote :: (body ++ quote :: p)) ⟨.other, body⟩ p := by
  refine ⟨fun _ more => lex_string quotes inside more, fun _ _ => .string quotes inside, ?_,
    fun typ => absurd rfl typ, quote :: (body ++ [quote]), by simp, List.cons_ne_nil _ _, ?_, ?_⟩
  · exact fun null => absurd (inside nullch null) (by simp [inString])
  · intro c member
    simp only [List.mem_cons, List.mem_append, List.not_mem_nil, or_false] at member
    rcases member with rfl | text | rfl
    · exact (quote_cases quotes).1
    · have proper := inside c text
      simp only [inString, Bool.and_eq_true, bne_iff_ne] at proper
      simp [ends, proper]
    · exact (quote_cases quotes).1
  · simp only [List.length_cons, List.length_append]
    omega

theorem word_starts (chars : ∀ c ∈ ch :: word, inWord c = true)
    (whole : inWord (p.headD nullch) = false) (apart : isAppended (p.headD nullch) = false) :
    Starts (ch :: (word ++ p)) ⟨.other, ch :: word⟩ p := by
  refine ⟨fun _ more => lex_word chars whole apart more, fun _ _ => .word chars whole apart, ?_,
    fun typ => absurd rfl typ, ch :: word, rfl, List.cons_ne_nil _ _, ?_, Nat.le_refl _⟩
  · exact fun null => absurd (chars nullch null) (by decide)
  · exact fun c member => (plain_cases (chars c member)).1

theorem not_at_end (goesOn : ends ch = false) : ¬AtEnd (ch :: p) := Bool.eq_false_iff.mp goesOn

theorem Starts.goes_on {token : Token} (starts : Starts p token rest) : ¬AtEnd p := by
  obtain ⟨front, rfl, some, goesOn, _⟩ := starts.split
  obtain ⟨ch, front, rfl⟩ := List.exists_cons_of_ne_nil some
  exact not_at_end (goesOn ch List.mem_cons_self)

theorem Starts.shorter {token : Token} (starts : Starts p token rest) : rest.length < p.length := by
  obtain ⟨front, rfl, some, _, _⟩ := starts.split
  rw [List.length_append]
  exact Nat.lt_add_of_pos_left (List.length_pos_iff.mpr some)

/-- The tokens of a line one after the other -/
@[elab_as_elim]
theorem Reads.token_induct
    {motive : ∀ (p : List UInt8) (toks : List Token) (rest : List UInt8), Reads p toks rest → Prop}
    (nothing : ∀ p, motive p [] p (.nothing p))
    (white : ∀ ch p toks rest (white : isBlank ch = true) (behind : Reads p toks rest),
      motive p toks rest behind → motive (ch :: p) toks rest (.white white behind))
    (token : ∀ p token behind toks rest (starts : Starts p token behind)
      (reads : Reads behind toks rest), motive behind toks rest reads →
        motive p (token :: toks) rest (starts.reads toks rest reads))
    {p : List UInt8} {toks : List Token} {rest : List UInt8} (reads : Reads p toks rest) :
    motive p toks rest reads := by
  induction reads with
  | nothing p => exact nothing p
  | white blanks behind induction => exact white _ _ _ _ blanks behind induction
  | symbol symbol behind induction =>
      exact token _ _ _ _ _ (symbol_starts symbol _) behind induction
  | string quotes inside behind induction =>
      exact token _ _ _ _ _ (string_starts quotes inside _) behind induction
  | word chars whole apart behind induction =>
      exact token _ _ _ _ _ (word_starts chars whole apart) behind induction

/-- What a line begins with -/
theorem line_cases (p : List UInt8) :
    AtEnd p ∨ (∃ ch rest, p = ch :: rest ∧ isBlank ch = true) ∨
      (∃ token rest, Starts p token rest) ∨ Unterminated p ∨ Appended p := by
  cases p with
  | nil => exact Or.inl rfl
  | cons ch p =>
      by_cases atEnd : ends ch = true
      · exact Or.inl atEnd
      by_cases white : isBlank ch = true
      · exact Or.inr (Or.inl ⟨ch, p, rfl, white⟩)
      cases symbol : symbolType ch with
      | some typ => exact Or.inr (Or.inr (Or.inl ⟨_, p, symbol_starts symbol p⟩))
      | none =>
          by_cases quotes : isQuote ch = true
          · have inside : ∀ c ∈ p.takeWhile (inString ch), inString ch c = true :=
              fun c member => List.mem_takeWhile_imp member
            have stop := stop_head (show inString ch nullch = false by simp [inString]) p
            have split := List.takeWhile_append_dropWhile (p := inString ch) (l := p)
            by_cases closes : (p.dropWhile (inString ch)).headD nullch = ch
            · cases behind : p.dropWhile (inString ch) with
              | nil =>
                  rw [behind] at closes
                  exact absurd closes.symm (quote_cases quotes).2.2.2
              | cons c rest =>
                  rw [behind] at closes split
                  have same : c = ch := closes
                  subst same
                  have starts := string_starts quotes inside rest
                  rw [split] at starts
                  exact Or.inr (Or.inr (Or.inl ⟨_, rest, starts⟩))
            · refine Or.inr (Or.inr (Or.inr (Or.inl
                ⟨ch, _, p.dropWhile (inString ch), quotes, inside, ?_, ?_⟩)))
              · unfold AtEnd ends
                simp only [inString, Bool.and_eq_false_iff, bne_eq_false_iff_eq] at stop
                simp only [Bool.or_eq_true, beq_iff_eq]
                tauto
              · rw [split]
          · have plain := plain_of_others (Bool.eq_false_iff.mpr atEnd)
              (Bool.eq_false_iff.mpr white) symbol (Bool.eq_false_iff.mpr quotes)
            have chars : ∀ c ∈ ch :: p.takeWhile inWord, inWord c = true := by
              intro c member
              rcases List.mem_cons.mp member with rfl | inside
              · exact plain
              · exact List.mem_takeWhile_imp inside
            have whole := stop_head (show inWord nullch = false by decide) p
            have split := List.takeWhile_append_dropWhile (p := inWord) (l := p)
            by_cases appended : isAppended ((p.dropWhile inWord).headD nullch) = true
            · refine Or.inr (Or.inr (Or.inr (Or.inr ⟨ch, _, _, chars, appended, ?_⟩)))
              rw [split]
            · have starts := word_starts chars whole (Bool.eq_false_iff.mpr appended)
              rw [split] at starts
              exact Or.inr (Or.inr (Or.inl ⟨_, _, starts⟩))

end Steps

section Lines

variable {p rest line : List UInt8} {toks : List Token} {s : Lexed}

/-- Every line has its tokens or is broken. -/
theorem tokens_or_broken (line : List UInt8) : (∃ toks, Tokens line toks) ∨ Broken line := by
  induction measured : line.length using Nat.strong_induction_on generalizing line with
  | _ length induction =>
      subst measured
      have add : ∀ (rest : List UInt8) (front : List Token), rest.length < line.length →
          (∀ toks rest', Reads rest toks rest' → Reads line (front ++ toks) rest') →
          (∃ toks, Tokens line toks) ∨ Broken line := by
        intro rest front less reads
        rcases induction rest.length less rest rfl with ⟨toks, rest', behind, atEnd⟩ |
          ⟨toks, rest', behind, broken⟩
        · exact Or.inl ⟨_, rest', reads toks rest' behind, atEnd⟩
        · exact Or.inr ⟨_, rest', reads toks rest' behind, broken⟩
      rcases line_cases line with atEnd | ⟨ch, rest, rfl, white⟩ | ⟨token, rest, starts⟩ | broken
      · exact Or.inl ⟨[], line, .nothing line, atEnd⟩
      · exact add rest [] (Nat.lt_succ_self _) fun _ _ => .white white
      · exact add rest [token] starts.shorter starts.reads
      · exact Or.inr ⟨[], line, .nothing line, broken⟩

/-- One more token is stored, and one less is to come. -/
theorem add_length (token : Token) :
    s.ntok + (token :: toks).length = (s.add token).ntok + toks.length := by
  change s.ntok + (toks.length + 1) = s.ntok + 1 + toks.length
  omega

theorem room_first {token : Token} {most : Nat} (room : s.ntok + (token :: toks).length ≤ most) :
    s.ntok < most := by
  rw [List.length_cons] at room
  omega

theorem lex_reads (reads : Reads p toks rest) (room : s.ntok + toks.length < shellMaxtok) :
    lexFrom p s = lexFrom rest (toks.foldl Lexed.add s) := by
  induction reads using Reads.token_induct generalizing s with
  | nothing => rfl
  | white ch p toks rest white _ induction =>
      rw [lex_blank white (by omega)]
      exact induction room
  | token p token behind toks rest starts _ induction =>
      rw [starts.stores s (room_first (Nat.le_of_lt room))]
      rw [add_length] at room
      exact induction room

/-- The tokens leave `toktyp` full, and the line goes on. -/
theorem lex_too_many (reads : Reads p toks rest) (room : s.ntok ≤ shellMaxtok)
    (many : shellMaxtok < s.ntok + toks.length ∨ shellMaxtok ≤ s.ntok + toks.length ∧ ¬AtEnd rest) :
    (lexFrom p s).1 = sysErr := by
  induction reads using Reads.token_induct generalizing s with
  | nothing p =>
      simp only [List.length_nil, Nat.add_zero] at many
      have full := many.resolve_left (Nat.not_lt.mpr room)
      rw [lex_full full.2 full.1]
  | white ch p toks rest white _ induction =>
      by_cases full : shellMaxtok ≤ s.ntok
      · rw [lex_full (not_at_end (blank_goes_on white)) full]
      · rw [lex_blank white (Nat.lt_of_not_le full)]
        exact induction room many
  | token p token behind toks rest starts _ induction =>
      by_cases full : shellMaxtok ≤ s.ntok
      · rw [lex_full starts.goes_on full]
      · rw [starts.stores s (Nat.lt_of_not_le full)]
        rw [add_length] at many
        exact induction (Nat.lt_of_not_le full) many

/-- There is a blank behind the last token that has room. -/
def FullWithBlank (p : List UInt8) (toks : List Token) (s : Lexed) : Prop :=
  s.ntok + toks.length = shellMaxtok ∧ ∃ ch rest, isBlank ch = true ∧ Reads p toks (ch :: rest)

theorem lex_tokens (reads : Reads p toks rest) (atEnd : AtEnd rest)
    (room : s.ntok + toks.length ≤ shellMaxtok) (bare : ¬FullWithBlank p toks s) :
    lexFrom p s = (toks.foldl Lexed.add s).finish := by
  induction reads using Reads.token_induct generalizing s with
  | nothing p => exact lex_end atEnd
  | white ch p toks rest white _ induction =>
      have more : s.ntok < shellMaxtok := by
        by_contra full
        obtain rfl : toks = [] := List.eq_nil_of_length_eq_zero (by omega)
        rw [List.length_nil] at room
        exact bare ⟨Nat.le_antisymm room (Nat.not_lt.mp full), ch, p, white, .nothing _⟩
      rw [lex_blank white more]
      refine induction atEnd room ?_
      rintro ⟨full, c, rest', also, reads⟩
      exact bare ⟨full, c, rest', also, .white white reads⟩
  | token p token behind toks rest starts _ induction =>
      rw [starts.stores s (room_first room)]
      rw [add_length] at room
      refine induction atEnd room ?_
      rintro ⟨full, c, rest', also, reads⟩
      exact bare ⟨(add_length _).trans full, c, rest', also, starts.reads _ _ reads⟩

end Lines

section Buffers

variable {p rest line : List UInt8} {toks : List Token} {s : Lexed} {tlen : Nat}

/-- Where the texts of the tokens start, the first one at a place -/
def places : Nat → List Token → List Nat
  | _, [] => []
  | place, token :: toks => place :: places (place + (token.text.length + 1)) toks

def layout (toks : List Token) : List UInt8 := toks.flatMap fun token => token.text ++ [nullch]

theorem places_length (place : Nat) (toks : List Token) :
    (places place toks).length = toks.length := by
  induction toks generalizing place with
  | nil => rfl
  | cons token toks induction => simp [places, induction]

theorem places_take (place count : Nat) (toks : List Token) :
    (places place toks).take count = places place (toks.take count) := by
  induction toks generalizing place count with
  | nil => simp [places]
  | cons token toks induction =>
      cases count with
      | zero => rfl
      | succ count => simp [places, induction]

theorem all_stored (toks : List Token) (s : Lexed) :
    toks.foldl Lexed.add s = ⟨s.ntok + toks.length, s.tok ++ places s.tokbuf.length toks,
      s.toktyp ++ toks.map Token.toktyp, s.tokbuf ++ layout toks, s.tlen⟩ := by
  induction toks generalizing s with
  | nil => simp [places, layout]
  | cons token toks induction =>
      rw [List.foldl_cons, induction]
      simp [Lexed.add, Lexed.start, Lexed.put, Lexed.count, places, layout, Nat.add_comm,
        Nat.add_left_comm]

/-- The text of a token is at its place. -/
theorem text_at_place {i : Nat} {token : Token} (front : List UInt8) (at_ : toks[i]? = some token) :
    ∃ place, (places front.length toks)[i]? = some place ∧
      token.text ++ [nullch] <+: (front ++ layout toks).drop place := by
  induction toks generalizing i front with
  | nil => cases at_
  | cons first toks induction =>
      cases i with
      | zero =>
          cases at_
          refine ⟨front.length, rfl, ?_⟩
          simp [layout]
      | succ i =>
          obtain ⟨place, found, text⟩ := induction (front ++ (first.text ++ [nullch])) at_
          refine ⟨place, ?_, ?_⟩
          · rw [← found, List.length_append, List.length_append]
            rfl
          · simpa [layout] using text

theorem texts_proper (reads : Reads p toks rest) : ∀ token ∈ toks, nullch ∉ token.text := by
  induction reads using Reads.token_induct with
  | nothing => exact fun _ none => absurd none List.not_mem_nil
  | white ch p toks rest _ _ induction => exact induction
  | token p first behind toks rest starts _ induction =>
      rintro token (_ | ⟨_, member⟩)
      · exact starts.proper
      · exact induction token member

/-- A token of another type than `SH_TOK_OTHER` is one character. -/
theorem symbol_length (reads : Reads p toks rest) :
    ∀ token ∈ toks, token.toktyp ≠ .other → token.text.length = 1 := by
  induction reads using Reads.token_induct with
  | nothing => exact fun _ none => absurd none List.not_mem_nil
  | white ch p toks rest _ _ induction => exact induction
  | token p first behind toks rest starts _ induction =>
      rintro token (_ | ⟨_, member⟩)
      · exact starts.symbol
      · exact induction token member

theorem stored_found (reads : Reads p toks rest) :
    Found toks (toks.foldl Lexed.add ⟨0, [], [], [], tlen⟩).finish := by
  rw [all_stored]
  refine ⟨by simp [Lexed.finish], by simp [Lexed.finish], ?_, rfl⟩
  intro i token at_
  obtain ⟨place, found, text⟩ := text_at_place [] at_
  exact ⟨place, found, texts_proper reads token (List.mem_of_getElem? at_), text⟩

theorem text_behind {front : List UInt8} (goesOn : ∀ ch ∈ front, ends ch = false) :
    (lineText (front ++ p)).length = front.length + (lineText p).length := by
  have text : lineText (front ++ p) = front ++ lineText p := by
    refine List.takeWhile_append_of_pos fun ch member => ?_
    rw [goesOn ch member]
    rfl
  rw [text, List.length_append]

/-- What has been stored, against what has been read of a line of `size` characters -/
structure Bounded (size : Nat) (p : List UInt8) (s : Lexed) : Prop where
  ntok : s.ntok ≤ shellMaxtok
  tok : s.tok.length = s.ntok
  toktyp : s.toktyp.length = s.ntok
  tokbuf : s.tokbuf.length + (lineText p).length ≤ size + s.ntok

theorem add_bounded {size : Nat} {front : List UInt8} {token : Token}
    (bounded : Bounded size (front ++ p) s) (goesOn : ∀ ch ∈ front, ends ch = false)
    (more : s.ntok < shellMaxtok) (shorter : token.text.length ≤ front.length) :
    Bounded size p (s.add token) := by
  have tokbuf := bounded.tokbuf
  rw [text_behind goesOn] at tokbuf
  refine ⟨more, ?_, ?_, ?_⟩
  · simp [Lexed.add, Lexed.start, Lexed.put, Lexed.count, bounded.tok]
  · simp [Lexed.add, Lexed.start, Lexed.put, Lexed.count, bounded.toktyp]
  · simp only [Lexed.add, Lexed.start, Lexed.put, Lexed.count, List.length_append,
      List.length_singleton]
    omega

theorem lex_bounded {size : Nat} (bounded : Bounded size p s) :
    (lexFrom p s).2.tokbuf.length ≤ size + shellMaxtok ∧
      (lexFrom p s).2.tok.length ≤ shellMaxtok ∧ (lexFrom p s).2.toktyp.length ≤ shellMaxtok := by
  induction measured : p.length using Nat.strong_induction_on generalizing p s with
  | _ length induction =>
      subst measured
      have ⟨ntok, tok, toktyp, tokbuf⟩ := bounded
      by_cases atEnd : AtEnd p
      · rw [lex_end atEnd]
        simp only [Lexed.finish]
        omega
      by_cases full : shellMaxtok ≤ s.ntok
      · rw [lex_full atEnd full]
        simp only
        omega
      have more := Nat.lt_of_not_le full
      rcases line_cases p with stop | ⟨ch, rest, rfl, white⟩ | ⟨token, rest, starts⟩ | broken
      · exact absurd stop atEnd
      · rw [lex_blank white more]
        have behind := @text_behind rest [ch] (by simpa using blank_goes_on white)
        have shorter : (lineText rest).length ≤ (lineText (ch :: rest)).length := by
          rw [show ch :: rest = [ch] ++ rest from rfl, behind]
          exact Nat.le_add_left _ _
        exact induction _ (Nat.lt_succ_self _) ⟨ntok, tok, toktyp, by omega⟩ rfl
      · rw [starts.stores s more]
        have less := starts.shorter
        obtain ⟨front, rfl, _, goesOn, shorter⟩ := starts.split
        exact induction _ less (add_bounded bounded goesOn more shorter) rfl
      · obtain ⟨stored, short, same⟩ := lex_broken broken more
        rw [same]
        simp only [Lexed.start, Lexed.put, List.length_append, List.length_singleton]
        omega

end Buffers

section Results

variable {line : List UInt8} {tlen : Nat}

theorem broken_goes_on {p : List UInt8} (broken : Unterminated p ∨ Appended p) : ¬AtEnd p := by
  rcases broken with ⟨quote, body, rest, quotes, _, _, rfl⟩ | ⟨ch, word, rest, chars, _, rfl⟩
  · exact not_at_end (quote_cases quotes).1
  · exact not_at_end (plain_cases (chars ch List.mem_cons_self)).1

/-- What is stored for a line that does not fill `toktyp` in front of a blank -/
theorem lexan_tokens {rest : List UInt8} {toks : List Token} (reads : Reads line toks rest)
    (atEnd : AtEnd rest) (few : toks.length ≤ shellMaxtok)
    (bare : ¬FullWithBlank line toks ⟨0, [], [], [], tlen⟩) :
    lexan line tlen = (toks.foldl Lexed.add ⟨0, [], [], [], tlen⟩).finish :=
  lex_tokens reads atEnd ((Nat.zero_add _).trans_le few) bare

theorem finish_stored (toks : List Token) :
    (toks.foldl Lexed.add ⟨0, [], [], [], tlen⟩).finish =
      ((toks.length : Int), ⟨toks.length, places 0 toks, toks.map Token.toktyp, layout toks,
        (layout toks).length⟩) := by
  rw [all_stored]
  simp [Lexed.finish]

/-- A line with a token for which there is no room, or a blank behind the last one -/
theorem lexan_too_many {rest : List UInt8} {toks : List Token} (reads : Reads line toks rest)
    (many : shellMaxtok < toks.length ∨ shellMaxtok ≤ toks.length ∧ ¬AtEnd rest) :
    (lexan line tlen).1 = sysErr :=
  lex_too_many reads (Nat.zero_le _) (by simpa only [Nat.zero_add] using many)

theorem broken_refused (broken : Broken line) : (lexan line tlen).1 = sysErr := by
  obtain ⟨toks, rest, reads, broken⟩ := broken
  by_cases few : toks.length < shellMaxtok
  · have room : (0 : Nat) + toks.length < shellMaxtok := by rwa [Nat.zero_add]
    have more : (toks.foldl Lexed.add ⟨0, [], [], [], tlen⟩).ntok < shellMaxtok := by
      rw [all_stored]
      exact room
    obtain ⟨_, _, same⟩ := lex_broken broken more
    rw [lexan, lex_reads reads room, same]
  · exact lexan_too_many reads (Or.inr ⟨Nat.not_lt.mp few, broken_goes_on broken⟩)

theorem trailing_not_exact (trailing : TrailingBlank line) : ¬Exact line tlen := by
  intro exact_
  obtain ⟨toks, ch, rest, tokens, all, white, reads⟩ := trailing
  have refused : (lexan line tlen).1 = sysErr :=
    lexan_too_many reads (Or.inr ⟨Nat.le_of_eq all.symm, not_at_end (blank_goes_on white)⟩)
  have found := (exact_.finds toks tokens (Nat.le_of_eq all)).ntok
  rw [refused, sysErr] at found
  omega

/-- The limit is looked at in front of the blanks, so that blanks behind the last token that is
allowed are refused. -/
theorem lexan_exact_iff (line : List UInt8) (tlen : Nat) :
    Exact line tlen ↔ ¬TrailingBlank line := by
  refine ⟨fun exact_ trailing => trailing_not_exact trailing exact_, fun bare => ?_⟩
  have finds : ∀ toks, Tokens line toks → toks.length ≤ shellMaxtok →
      Found toks (lexan line tlen) := by
    rintro toks ⟨rest, reads, atEnd⟩ few
    have notFull : ¬FullWithBlank line toks ⟨0, [], [], [], tlen⟩ := by
      rintro ⟨full, ch, rest', white, also⟩
      exact bare
        ⟨toks, ch, rest', ⟨rest, reads, atEnd⟩, (Nat.zero_add _).symm.trans full, white, also⟩
    rw [lexan_tokens reads atEnd few notFull]
    exact stored_found reads
  have bounded : ∀ size, (lineText line).length ≤ size → Bounded size line ⟨0, [], [], [], tlen⟩ :=
    fun size short => ⟨Nat.zero_le _, rfl, rfl, (Nat.zero_add _).trans_le short⟩
  refine ⟨⟨?_, ?_⟩, finds, fun short => (lex_bounded (bounded _ short)).1,
    (lex_bounded (bounded _ (Nat.le_refl _))).2⟩
  · intro refused
    rcases tokens_or_broken line with ⟨toks, tokens⟩ | broken
    · refine Or.inr ⟨toks, tokens, ?_⟩
      by_contra few
      have found := (finds toks tokens (Nat.not_lt.mp few)).ntok
      rw [refused, sysErr] at found
      omega
    · exact Or.inl broken
  · rintro (broken | ⟨toks, ⟨rest, reads, _⟩, many⟩)
    · exact broken_refused broken
    · exact lexan_too_many reads (Or.inl many)

/-- A line with fewer tokens than there is room for -/
theorem lexan_reads {rest : List UInt8} {toks : List Token} (reads : Reads line toks rest)
    (atEnd : AtEnd rest) (few : toks.length < shellMaxtok) :
    lexan line tlen = ((toks.length : Int), ⟨toks.length, places 0 toks,
      toks.map Token.toktyp, layout toks, (layout toks).length⟩) := by
  have bare : ¬FullWithBlank line toks ⟨0, [], [], [], tlen⟩ :=
    fun full => absurd ((Nat.zero_add _).symm.trans full.1) (Nat.ne_of_lt few)
  rw [lexan_tokens reads atEnd (Nat.le_of_lt few) bare, finish_stored]

/-- What is stored when a line is accepted -/
theorem lexan_accepted (accepted : (lexan line tlen).1 ≠ sysErr) :
    ∃ toks, Tokens line toks ∧ toks.length ≤ shellMaxtok ∧
      lexan line tlen = ((toks.length : Int), ⟨toks.length, places 0 toks,
        toks.map Token.toktyp, layout toks, (layout toks).length⟩) := by
  rcases tokens_or_broken line with ⟨toks, rest, reads, atEnd⟩ | broken
  · by_cases few : toks.length ≤ shellMaxtok
    · have notFull : ¬FullWithBlank line toks ⟨0, [], [], [], tlen⟩ := by
        rintro ⟨full, ch, rest', white, also⟩
        have all : shellMaxtok = toks.length := full.symm.trans (Nat.zero_add _)
        exact accepted (lexan_too_many also
          (Or.inr ⟨Nat.le_of_eq all, not_at_end (blank_goes_on white)⟩))
      refine ⟨toks, ⟨rest, reads, atEnd⟩, few, ?_⟩
      rw [lexan_tokens reads atEnd few notFull, finish_stored]
    · exact absurd (lexan_too_many reads (Or.inl (Nat.lt_of_not_le few))) accepted
  · exact absurd (broken_refused broken) accepted

theorem lexan_short (short : (lineText line).length ≤ shellBuflen) :
    (lexan line tlen).2.tokbuf.length ≤ shellBuflen + shellMaxtok :=
  (lex_bounded ⟨Nat.zero_le _, rfl, rfl, (Nat.zero_add _).trans_le short⟩).1

/-- A line of `a` and a blank, over and over -/
def manyWords (count : Nat) : List UInt8 := (List.replicate count [97, 32]).flatten

/-- A word of one character -/
theorem reads_character {ch : UInt8} {p rest : List UInt8} {toks : List Token}
    (plain : inWord ch = true) (whole : inWord (p.headD nullch) = false)
    (apart : isAppended (p.headD nullch) = false) (behind : Reads p toks rest) :
    Reads (ch :: p) (⟨.other, [ch]⟩ :: toks) rest :=
  @Reads.word ch [] p rest toks (by simpa using plain) whole apart behind

theorem many_words_read (count : Nat) :
    Reads (manyWords (count + 1)) (List.replicate (count + 1) ⟨.other, [97]⟩) [32] := by
  induction count with
  | zero => exact reads_character rfl rfl rfl (.nothing [32])
  | succ count induction => exact reads_character rfl rfl rfl (.white rfl induction)

/-- Blanks behind the tokens -/
theorem reads_blank {p rest : List UInt8} {toks : List Token} {ch : UInt8}
    (white : isBlank ch = true) (reads : Reads p toks (ch :: rest)) : Reads p toks rest := by
  generalize same : ch :: rest = behind at reads
  induction reads with
  | nothing =>
      subst same
      exact .white white (.nothing rest)
  | white also _ induction => exact .white also (induction same)
  | symbol symbol _ induction => exact .symbol symbol (induction same)
  | string quotes inside _ induction => exact .string quotes inside (induction same)
  | word chars whole apart _ induction => exact .word chars whole apart (induction same)

theorem lexan_refuses_blank : ¬∀ (line : List UInt8) (tlen : Nat), Exact line tlen := by
  intro always
  have reads := many_words_read 31
  exact trailing_not_exact ⟨_, 32, [], ⟨[], reads_blank rfl reads, rfl⟩, List.length_replicate, rfl,
    reads⟩ (always (manyWords 32) 0)

end Results

end Xinu.Shell.Lexan
