import Mathlib.Algebra.Order.BigOperators.Group.List
import Mathlib.Algebra.Order.Ring.Nat
import Mathlib.Data.List.Basic

/-!
# Reading graphs in the DOT language

A reader for the part of the DOT language in which dependency graphs are written: nodes and labelled edges
between braces, behind the word `digraph` and a name.  Names are quoted.  A quoted name ends at the first
double quote that is not preceded by a backslash, whatever else it holds.

A name that holds such a quote itself is cut short, and what follows is read as something else.  This cannot
go unnoticed: each quoted name takes up two bare quotes, so that a text has too many of them to be read as the
statements from which it was written.

## Main definitions

* `Dot.Token`, `Dot.tokens?`: the tokens of a text.
* `Dot.Statement`, `Dot.read`: the statements of a graph.
* `Dot.print`: how statements are written.
* `Dot.bareQuotes`: how many quotes are not preceded by a backslash.

## Main results

* `read_print`: **statements without bare quotes in their names are read as they were written.**
* `bareQuotes_eq_zero_of_read`: if as many names are read as were written, then there are no bare quotes in
  them.
-/

namespace ScriptBundle.Dot

/-! ### Tokens -/

inductive Token where
  /-- A quoted name, without its quotes. -/
  | quoted (name : List Char)
  | word (letters : List Char)
  | arrow
  | mark (c : Char)
  deriving DecidableEq, Repr

/-- Where a reader is. -/
inductive Mode where
  | between
  /-- Behind the first half of an arrow. -/
  | dash
  /-- In a word, its letters last one first. -/
  | word (letters : List Char)
  /-- In a quoted name, behind its opening quote or another last character. -/
  | quoted (last : Char) (name : List Char)
  deriving DecidableEq, Repr

/-- The tokens so far, last one first, and where the reader is. -/
structure Scan where
  tokens : List Token := []
  mode : Mode := .between
  deriving DecidableEq, Repr

def isMark (c : Char) : Bool := ['\x7b', '\x7d', '[', ']', '='].contains c

namespace Scan

/-- Behind complete tokens. -/
def start (tokens : List Token) (c : Char) : Option Scan :=
  if c = '"' then some ⟨tokens, .quoted c []⟩
  else if c = '-' then some ⟨tokens, .dash⟩
  else if c = ' ' ∨ c = '\t' ∨ c = '\n' then some ⟨tokens, .between⟩
  else if isMark c then some ⟨.mark c :: tokens, .between⟩
  else if c.isAlpha then some ⟨tokens, .word [c]⟩
  else none

/-- Go on by a character. -/
def step (s : Scan) (c : Char) : Option Scan :=
  match s.mode with
  | .between => start s.tokens c
  | .dash => if c = '>' then some ⟨.arrow :: s.tokens, .between⟩ else none
  | .word letters =>
    if c.isAlphanum then some ⟨s.tokens, .word (c :: letters)⟩
    else start (.word letters.reverse :: s.tokens) c
  | .quoted last name =>
    if c = '"' ∧ last ≠ '\\' then some ⟨.quoted name.reverse :: s.tokens, .between⟩
    else some ⟨s.tokens, .quoted c (c :: name)⟩

/-- Go on by a text. -/
def run (s : Scan) (text : List Char) : Option Scan := text.foldlM step s

/-- The tokens at the end of a text, unless it ends within one that is not complete. -/
def tokens? (s : Scan) : Option (List Token) :=
  match s.mode with
  | .between => some s.tokens.reverse
  | .word letters => some (.word letters.reverse :: s.tokens).reverse
  | .dash | .quoted _ _ => none

end Scan

/-- The tokens of a text. -/
def tokens? (text : List Char) : Option (List Token) := (Scan.run {} text).bind Scan.tokens?

/-! ### Statements -/

/-- What a graph says. -/
inductive Statement where
  | node (name : List Char)
  | edge (source target label : List Char)
  deriving DecidableEq, Repr

/-- The statements up to the closing brace. -/
def statements? : List Token → Option (List Statement)
  | [.mark '\x7d'] => some []
  | .quoted source :: .arrow :: .quoted target :: .mark '[' :: .word ['l', 'a', 'b', 'e', 'l'] :: .mark '=' ::
      .quoted label :: .mark ']' :: rest => (statements? rest).map (.edge source target label :: ·)
  | .quoted name :: rest => (statements? rest).map (.node name :: ·)
  | _ => none

/-- The statements of a graph. -/
def graph? : List Token → Option (List Statement)
  | .word ['d', 'i', 'g', 'r', 'a', 'p', 'h'] :: .word _ :: .mark '\x7b' :: rest => statements? rest
  | _ => none

/-- Read a graph; nothing if the text is none. -/
def read (text : List Char) : Option (List Statement) := (tokens? text).bind graph?

def quote (name : List Char) : List Char := '"' :: (name ++ ['"'])

namespace Statement

/-- The names in a statement, with its label. -/
def names : Statement → List (List Char)
  | .node name => [name]
  | .edge source target label => [source, target, label]

def tokens : Statement → List Token
  | .node name => [.quoted name]
  | .edge source target label =>
    [.quoted source, .arrow, .quoted target, .mark '[', .word ['l', 'a', 'b', 'e', 'l'], .mark '=',
      .quoted label, .mark ']']

/-- The line of a statement. -/
def line : Statement → List Char
  | .node name => '\n' :: '\t' :: quote name
  | .edge source target label =>
    '\n' :: '\t' :: (quote source ++ (" -> ".toList ++ (quote target ++ (" [label=".toList
      ++ (quote label ++ [']'])))))

end Statement

/-- The tokens in front of the statements. -/
def heading : List Token := [.word ['d', 'i', 'g', 'r', 'a', 'p', 'h'], .word ['G'], .mark '\x7b']

/-- Write a graph. -/
def print (statements : List Statement) : List Char :=
  "digraph G \x7b".toList ++ (statements.flatMap Statement.line ++ ['\n', '\x7d'])

/-! ### Bare quotes -/

variable {last c : Char} {as bs name : List Char} {tokens : List Token} {s s' : Scan} {st : Statement}
  {ss ss' : List Statement}

/-- How many quotes in a text are not preceded by a backslash, if `last` stands before the text. -/
def bareQuotes (last : Char) : List Char → Nat
  | [] => 0
  | c :: cs => (if c = '"' ∧ last ≠ '\\' then 1 else 0) + bareQuotes c cs

/-- Each quote in the text is preceded by a backslash. -/
def IsEscaped (cs : List Char) : Prop :=
  ∀ before after, cs = before ++ '"' :: after → before.getLast? = some '\\'

theorem bareQuotes_cons_of_ne (h : c ≠ '"') : bareQuotes last (c :: as) = bareQuotes c as := by
  rw [bareQuotes, if_neg (fun hc => h hc.1), Nat.zero_add]

theorem bareQuotes_append (last : Char) (as bs : List Char) :
    bareQuotes last (as ++ bs) = bareQuotes last as + bareQuotes (as.getLastD last) bs := by
  induction as generalizing last with
  | nil => simp [bareQuotes]
  | cons a as ih => rw [List.cons_append, bareQuotes, bareQuotes, ih, List.getLastD_cons, Nat.add_assoc]

theorem bareQuotes_of_not_mem (h : '"' ∉ as) : bareQuotes last as = 0 := by
  induction as generalizing last with
  | nil => rfl
  | cons a as ih =>
    obtain ⟨ha, has⟩ := not_or.1 (List.mem_cons.not.1 h)
    rw [bareQuotes_cons_of_ne (Ne.symm ha), ih has]

theorem bareQuotes_eq_zero_iff :
    bareQuotes last as = 0 ↔ ∀ before after, as = before ++ '"' :: after → before.getLastD last = '\\' := by
  induction as generalizing last with
  | nil => simp [bareQuotes]
  | cons a as ih =>
    rw [bareQuotes, Nat.add_eq_zero_iff, ih]
    constructor
    · rintro ⟨hfirst, hrest⟩ before after heq
      cases before with
      | nil =>
        obtain ⟨rfl, -⟩ := List.cons.inj heq
        by_contra hlast
        simp [show last ≠ '\\' from hlast] at hfirst
      | cons b before =>
        obtain ⟨rfl, hafter⟩ := List.cons.inj heq
        rw [List.getLastD_cons]
        exact hrest before after hafter
    · intro h
      constructor
      · rw [if_neg]
        rintro ⟨rfl, hlast⟩
        exact hlast (h [] as rfl)
      · intro before after heq
        have := h (a :: before) after (by rw [heq, List.cons_append])
        rwa [List.getLastD_cons] at this

/-- A text stands between quotes as it is if all of its quotes are preceded by backslashes. -/
theorem isEscaped_iff : IsEscaped as ↔ bareQuotes '"' as = 0 := by
  rw [bareQuotes_eq_zero_iff]
  refine forall_congr' fun before => forall_congr' fun after => imp_congr_right fun _ => ?_
  rw [List.getLastD_eq_getLast?]
  cases before.getLast? <;> simp

/-! ### Reading what was written -/

namespace Scan

theorem run_cons (s : Scan) (c : Char) (cs : List Char) :
    s.run (c :: cs) = (s.step c).bind fun s => s.run cs := rfl

theorem run_append (s : Scan) (as bs : List Char) :
    s.run (as ++ bs) = (s.run as).bind fun s => s.run bs := by
  unfold run
  rw [List.foldlM_append]
  rfl

theorem run_append_of_eq_some (h : s.run as = some s') (bs : List Char) : s.run (as ++ bs) = s'.run bs := by
  rw [run_append, h, Option.bind_some]

/-- Within quotes the reader goes on over a text without bare quotes. -/
theorem run_quoted (h : bareQuotes last as = 0) :
    run ⟨tokens, .quoted last name⟩ as = some ⟨tokens, .quoted (as.getLastD last) (as.reverse ++ name)⟩ := by
  induction as generalizing last name with
  | nil => rfl
  | cons a as ih =>
    rw [bareQuotes, Nat.add_eq_zero_iff] at h
    have hbare : ¬ (a = '"' ∧ last ≠ '\\') := fun hbare => by simp [hbare] at h
    have hstep : step ⟨tokens, .quoted last name⟩ a = some ⟨tokens, .quoted a (a :: name)⟩ := if_neg hbare
    rw [run_cons, hstep, Option.bind_some, ih h.2, List.getLastD_cons, List.reverse_cons, List.append_assoc,
      List.singleton_append]

theorem run_quote (hbare : bareQuotes '"' name = 0) (hlast : name.getLastD '"' ≠ '\\') :
    run ⟨tokens, .between⟩ (quote name) = some ⟨.quoted name :: tokens, .between⟩ := by
  have hopen : step ⟨tokens, .between⟩ '"' = some ⟨tokens, .quoted '"' []⟩ := rfl
  have hclose : step ⟨tokens, .quoted (name.getLastD '"') name.reverse⟩ '"'
      = some ⟨.quoted name :: tokens, .between⟩ := by
    show ite _ _ _ = _
    rw [if_pos ⟨rfl, hlast⟩, List.reverse_reverse]
  rw [quote, run_cons, hopen, Option.bind_some, run_append_of_eq_some (run_quoted hbare), List.append_nil,
    run_cons, hclose]
  rfl

/-- A statement is read as its tokens. -/
theorem run_line (h : ∀ name ∈ st.names, bareQuotes '"' name = 0 ∧ name.getLastD '"' ≠ '\\') :
    run ⟨tokens, .between⟩ st.line = some ⟨st.tokens.reverse ++ tokens, .between⟩ := by
  have hindent (rest : List Char) :
      run ⟨tokens, .between⟩ ('\n' :: '\t' :: rest) = run ⟨tokens, .between⟩ rest := rfl
  cases st with
  | node name =>
    obtain ⟨hbare, hlast⟩ := h name List.mem_cons_self
    rw [Statement.line, hindent, run_quote hbare hlast]
    rfl
  | edge source target label =>
    simp only [Statement.names, List.forall_mem_cons] at h
    obtain ⟨⟨hsource, hsource'⟩, ⟨htarget, htarget'⟩, ⟨hlabel, hlabel'⟩, -⟩ := h
    have harrow (tokens : List Token) :
        run ⟨tokens, .between⟩ " -> ".toList = some ⟨.arrow :: tokens, .between⟩ := rfl
    have hkey (tokens : List Token) : run ⟨tokens, .between⟩ " [label=".toList
        = some ⟨.mark '=' :: .word ['l', 'a', 'b', 'e', 'l'] :: .mark '[' :: tokens, .between⟩ := rfl
    rw [Statement.line, hindent, run_append_of_eq_some (run_quote hsource hsource'),
      run_append_of_eq_some (harrow _), run_append_of_eq_some (run_quote htarget htarget'),
      run_append_of_eq_some (hkey _), run_append_of_eq_some (run_quote hlabel hlabel')]
    rfl

theorem run_lines (h : ∀ st ∈ ss, ∀ name ∈ st.names, bareQuotes '"' name = 0 ∧ name.getLastD '"' ≠ '\\') :
    run ⟨tokens, .between⟩ (ss.flatMap Statement.line)
      = some ⟨(ss.flatMap Statement.tokens).reverse ++ tokens, .between⟩ := by
  induction ss generalizing tokens with
  | nil => rfl
  | cons st ss ih =>
    obtain ⟨hst, hss⟩ := List.forall_mem_cons.1 h
    rw [List.flatMap_cons, run_append_of_eq_some (run_line hst), ih hss, List.flatMap_cons,
      List.reverse_append, List.append_assoc]

end Scan

/-- Statements are read from their tokens. -/
theorem statements?_tokens (ss : List Statement) :
    statements? (ss.flatMap Statement.tokens ++ [.mark '\x7d']) = some ss := by
  induction ss with
  | nil => rfl
  | cons st ss ih =>
    cases st with
    | edge source target label =>
      simp only [List.flatMap_cons, Statement.tokens, List.cons_append, List.nil_append, statements?, ih,
        Option.map_some]
    | node name =>
      -- behind a lone node there is another name or the closing brace, and no arrow
      have hnode : statements? (.quoted name :: (ss.flatMap Statement.tokens ++ [.mark '\x7d']))
          = (statements? (ss.flatMap Statement.tokens ++ [.mark '\x7d'])).map (.node name :: ·) := by
        cases ss with
        | nil => rfl
        | cons st ss => cases st <;> rfl
      simp only [List.flatMap_cons, Statement.tokens, List.cons_append, List.nil_append, hnode, ih,
        Option.map_some]

/-- **Statements without bare quotes in their names are read as they were written.** -/
theorem read_print
    (h : ∀ st ∈ ss, ∀ name ∈ st.names, bareQuotes '"' name = 0 ∧ name.getLastD '"' ≠ '\\') :
    read (print ss) = some ss := by
  have hhead : Scan.run {} "digraph G \x7b".toList = some ⟨heading.reverse, .between⟩ := by
    decide +kernel
  have hend (tokens : List Token) :
      Scan.run ⟨tokens, .between⟩ ['\n', '\x7d'] = some ⟨.mark '\x7d' :: tokens, .between⟩ := by
    simp [Scan.run, Scan.step, Scan.start, isMark]
  have hrun : Scan.run {} (print ss)
      = some ⟨.mark '\x7d' :: ((ss.flatMap Statement.tokens).reverse ++ heading.reverse), .between⟩ :=
    calc Scan.run {} (print ss)
      _ = Scan.run ⟨heading.reverse, .between⟩ (ss.flatMap Statement.line ++ ['\n', '\x7d']) :=
        Scan.run_append_of_eq_some hhead _
      _ = Scan.run ⟨(ss.flatMap Statement.tokens).reverse ++ heading.reverse, .between⟩ ['\n', '\x7d'] :=
        Scan.run_append_of_eq_some (Scan.run_lines h) _
      _ = _ := hend _
  have htokens : tokens? (print ss) = some (heading ++ (ss.flatMap Statement.tokens ++ [.mark '\x7d'])) := by
    simp [tokens?, hrun, Scan.tokens?]
  simp only [read, htokens, heading, Option.bind_some, List.cons_append, List.nil_append, graph?,
    statements?_tokens]

/-! ### Counting bare quotes -/

def Token.isQuoted : Token → Bool
  | .quoted _ => true
  | _ => false

namespace Scan

/-- How many bare quotes the tokens so far have taken up. -/
def quotes (s : Scan) : Nat :=
  2 * s.tokens.countP Token.isQuoted + match s.mode with
    | .quoted _ _ => 1
    | _ => 0

/-- The character before the rest of the text.  No backslash can be read outside of quotes. -/
def Follows (s : Scan) (last : Char) : Prop :=
  match s.mode with
  | .quoted c _ => c = last
  | _ => last ≠ '\\'

theorem quotes_of_start (h : start tokens c = some s) (hlast : last ≠ '\\') :
    s.Follows c ∧ s.quotes = 2 * tokens.countP Token.isQuoted + if c = '"' ∧ last ≠ '\\' then 1 else 0 := by
  unfold start at h
  split_ifs at h with hquote hdash hblank hmark halpha <;> obtain rfl := Option.some.inj h
  · simp [Follows, quotes, hquote, hlast]
  · simp [Follows, quotes, hdash]
  · rcases hblank with rfl | rfl | rfl <;> simp [Follows, quotes]
  · have hc : c ≠ '\\' := by
      rintro rfl
      cases hmark
    simp [Follows, quotes, hquote, hc, Token.isQuoted]
  · have hc : c ≠ '\\' := by
      rintro rfl
      cases halpha
    simp [Follows, quotes, hquote, hc]

/-- A quoted name takes up its two quotes. -/
theorem quotes_of_step (h : s.step c = some s') (hs : s.Follows last) :
    s'.Follows c ∧ s'.quotes = s.quotes + if c = '"' ∧ last ≠ '\\' then 1 else 0 := by
  obtain ⟨tokens, mode⟩ := s
  cases mode with
  | between => exact quotes_of_start h hs
  | dash =>
    replace h : (if c = '>' then some (⟨.arrow :: tokens, .between⟩ : Scan) else none) = some s' := h
    split_ifs at h with hc
    obtain rfl := Option.some.inj h
    subst hc
    simp [Follows, quotes, Token.isQuoted]
  | word letters =>
    replace h : (if c.isAlphanum then some (⟨tokens, .word (c :: letters)⟩ : Scan)
      else start (.word letters.reverse :: tokens) c) = some s' := h
    split_ifs at h with hc
    · obtain rfl := Option.some.inj h
      have hquote : c ≠ '"' := by
        rintro rfl
        cases hc
      have hback : c ≠ '\\' := by
        rintro rfl
        cases hc
      simp [Follows, quotes, hquote, hback]
    · have hstart := quotes_of_start h hs
      rwa [List.countP_cons_of_neg (by simp [Token.isQuoted])] at hstart
  | quoted before name =>
    obtain rfl : before = last := hs
    replace h : (if c = '"' ∧ before ≠ '\\' then some (⟨.quoted name.reverse :: tokens, .between⟩ : Scan)
      else some ⟨tokens, .quoted c (c :: name)⟩) = some s' := h
    split_ifs at h with hc
    · obtain rfl := Option.some.inj h
      obtain ⟨rfl, hbefore⟩ := hc
      refine ⟨show ('"' : Char) ≠ '\\' by decide, ?_⟩
      show 2 * (Token.quoted name.reverse :: tokens).countP Token.isQuoted + 0
        = 2 * tokens.countP Token.isQuoted + 1 + ite _ _ _
      rw [if_pos ⟨rfl, hbefore⟩, List.countP_cons_of_pos rfl]
      omega
    · obtain rfl := Option.some.inj h
      rw [if_neg hc]
      exact ⟨rfl, rfl⟩

theorem quotes_of_run (h : s.run as = some s') (hs : s.Follows last) :
    s'.quotes = s.quotes + bareQuotes last as := by
  induction as generalizing s last with
  | nil =>
    obtain rfl := Option.some.inj h
    rfl
  | cons c as ih =>
    rw [run_cons, Option.bind_eq_some_iff] at h
    obtain ⟨next, hstep, hrun⟩ := h
    obtain ⟨hnext, hquotes⟩ := quotes_of_step hstep hs
    rw [ih hrun hnext, hquotes, bareQuotes, Nat.add_assoc]

end Scan

theorem bareQuotes_of_tokens? {text : List Char} (h : tokens? text = some tokens) :
    bareQuotes ' ' text = 2 * tokens.countP Token.isQuoted := by
  unfold tokens? at h
  rw [Option.bind_eq_some_iff] at h
  obtain ⟨s, hrun, hs⟩ := h
  have hquotes : s.quotes = bareQuotes ' ' text := by
    rw [Scan.quotes_of_run hrun (show (' ' : Char) ≠ '\\' by decide)]
    exact Nat.zero_add _
  obtain ⟨found, mode⟩ := s
  cases mode with
  | between =>
    obtain rfl := Option.some.inj hs
    rw [← hquotes, List.countP_reverse]
    rfl
  | word letters =>
    obtain rfl := Option.some.inj hs
    rw [← hquotes, List.countP_reverse, List.countP_cons_of_neg (by simp [Token.isQuoted])]
    rfl
  | dash => cases hs
  | quoted last name => cases hs

theorem countP_isQuoted_of_statements? (h : statements? tokens = some ss) :
    tokens.countP Token.isQuoted = (ss.flatMap Statement.names).length := by
  induction tokens using statements?.induct generalizing ss with
  | case1 =>
    obtain rfl := Option.some.inj h
    rfl
  | case2 source target label rest ih =>
    rw [statements?] at h
    obtain ⟨ss, hss, rfl⟩ := Option.map_eq_some_iff.1 h
    rw [List.flatMap_cons, List.length_append, ← ih hss]
    simp +arith [List.countP_cons, Token.isQuoted, Statement.names]
  | case3 name rest hrest ih =>
    rw [statements?.eq_3 _ _ hrest] at h
    obtain ⟨ss, hss, rfl⟩ := Option.map_eq_some_iff.1 h
    rw [List.flatMap_cons, List.length_append, ← ih hss]
    simp +arith [List.countP_cons, Token.isQuoted, Statement.names]
  | case4 tokens hend hedge hnode =>
    rw [statements?.eq_4 _ hend hedge hnode] at h
    cases h

/-- Each name that is read takes up two bare quotes. -/
theorem bareQuotes_of_read {text : List Char} (h : read text = some ss) :
    bareQuotes ' ' text = 2 * (ss.flatMap Statement.names).length := by
  rw [read, Option.bind_eq_some_iff] at h
  obtain ⟨tokens, htokens, hgraph⟩ := h
  rw [bareQuotes_of_tokens? htokens]
  unfold graph? at hgraph
  split at hgraph
  · rw [← countP_isQuoted_of_statements? hgraph]
    simp [Token.isQuoted]
  · cases hgraph

/-! ### Counting what was written -/

theorem getLastD_quote (last : Char) (name : List Char) : (quote name).getLastD last = '"' := by
  rw [quote, List.getLastD_cons, List.getLastD_concat]

theorem bareQuotes_quote (hbefore : last ≠ '\\') (hlast : name.getLastD '"' ≠ '\\') :
    bareQuotes last (quote name) = bareQuotes '"' name + 2 := by
  have hend : bareQuotes (name.getLastD '"') ['"'] = 1 := by
    rw [bareQuotes, if_pos ⟨rfl, hlast⟩]
    rfl
  rw [quote, bareQuotes, if_pos ⟨rfl, hbefore⟩, bareQuotes_append, hend]
  omega

/-- A name that is written takes up two bare quotes, and those that it holds. -/
theorem bareQuotes_line (h : ∀ name ∈ st.names, name.getLastD '"' ≠ '\\') :
    bareQuotes last st.line = (st.names.map fun name => bareQuotes '"' name + 2).sum := by
  have hindent (rest : List Char) : bareQuotes last ('\n' :: '\t' :: rest) = bareQuotes '\t' rest := by
    rw [bareQuotes_cons_of_ne (by decide), bareQuotes_cons_of_ne (by decide)]
  cases st with
  | node name =>
    rw [Statement.line, hindent, bareQuotes_quote (by decide) (h name List.mem_cons_self)]
    rfl
  | edge source target label =>
    simp only [Statement.names, List.forall_mem_cons] at h
    obtain ⟨hsource, htarget, hlabel, -⟩ := h
    have harrow (last : Char) : bareQuotes last " -> ".toList = 0 := bareQuotes_of_not_mem (by decide)
    have hkey (last : Char) : bareQuotes last " [label=".toList = 0 := bareQuotes_of_not_mem (by decide)
    have hclose : bareQuotes '"' [']'] = 0 := bareQuotes_of_not_mem (by decide)
    have harrowLast : " -> ".toList.getLastD '"' = ' ' := by decide +kernel
    have hkeyLast : " [label=".toList.getLastD '"' = '=' := by decide +kernel
    rw [Statement.line, hindent, bareQuotes_append, bareQuotes_append, bareQuotes_append, bareQuotes_append,
      bareQuotes_append, getLastD_quote, getLastD_quote, getLastD_quote, harrow, harrowLast, hkey, hkeyLast,
      hclose, bareQuotes_quote (by decide) hsource, bareQuotes_quote (by decide) htarget,
      bareQuotes_quote (by decide) hlabel]
    simp [Statement.names]

theorem bareQuotes_lines (h : ∀ st ∈ ss, ∀ name ∈ st.names, name.getLastD '"' ≠ '\\') (last : Char) :
    bareQuotes last (ss.flatMap Statement.line ++ ['\n', '\x7d'])
      = ((ss.flatMap Statement.names).map fun name => bareQuotes '"' name + 2).sum := by
  induction ss generalizing last with
  | nil => exact bareQuotes_of_not_mem (by decide)
  | cons st ss ih =>
    obtain ⟨hst, hss⟩ := List.forall_mem_cons.1 h
    rw [List.flatMap_cons, List.append_assoc, bareQuotes_append, bareQuotes_line hst, ih hss, List.flatMap_cons,
      List.map_append, List.sum_append]

/-- If as many names are read as were written, then there are no bare quotes in them. -/
theorem bareQuotes_eq_zero_of_read (h : ∀ st ∈ ss, ∀ name ∈ st.names, name.getLastD '"' ≠ '\\')
    (hread : read (print ss) = some ss')
    (hlength : (ss'.flatMap Statement.names).length = (ss.flatMap Statement.names).length) :
    ∀ name ∈ ss.flatMap Statement.names, bareQuotes '"' name = 0 := by
  have hhead (last : Char) : bareQuotes last "digraph G \x7b".toList = 0 :=
    bareQuotes_of_not_mem (by decide +kernel)
  have hprint : bareQuotes ' ' (print ss)
      = ((ss.flatMap Statement.names).map fun name => bareQuotes '"' name + 2).sum := by
    unfold print
    rw [bareQuotes_append, hhead, Nat.zero_add]
    exact bareQuotes_lines h _
  have hwritten : bareQuotes ' ' (print ss)
      = ((ss.flatMap Statement.names).map (bareQuotes '"')).sum + 2 * (ss.flatMap Statement.names).length := by
    rw [hprint, List.sum_map_add]
    simp [mul_comm]
  have hsum : ((ss.flatMap Statement.names).map (bareQuotes '"')).sum = 0 := by
    rw [bareQuotes_of_read hread, hlength] at hwritten
    omega
  intro name hname
  exact List.sum_eq_zero_iff.1 hsum _ (List.mem_map_of_mem hname)

end ScriptBundle.Dot
