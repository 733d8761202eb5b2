import EntityGraph.Proofs.Sql.Token
import Mathlib.Data.List.Chain

/-!
# The tokens of compiled statements

A statement is compiled from pieces, and each piece has its own tokens, whatever stands around it,
as long as neighbors do not run together: one of them has to end or to begin with a blank or a mark.
`Readable` says so of a list of pieces, and `tokens_ofPieces` is what follows: the tokens of the
whole text are those of its pieces, each argument in its place. Neither identifiers nor values can
break out of their tokens.
-/

set_option autoImplicit false

namespace EntityGraph.Sql

open LexState (start run step enter leave finish)

variable {d : Dialect}

/-! ## Texts one after another -/

theorem LexState.run_append (s : LexState) (a b : List Char) :
    s.run d (a ++ b) = (s.run d a).bind fun (ts, next) =>
      (next.run d b).map fun (us, last) => (ts ++ us, last) := by
  induction a generalizing s with
  | nil => cases h : s.run d b <;> simp [run, h]
  | cons c a ih =>
    simp only [List.cons_append, run, ih]
    cases s.step d c with
    | none => rfl
    | some r =>
      obtain ⟨ts, next⟩ := r
      cases h : next.run d a with
      | none => simp [h]
      | some r =>
        obtain ⟨us, last⟩ := r
        cases h' : last.run d b <;> simp [h, h', List.append_assoc]

/-- A character with which no token goes on. -/
def isFree (c : Char) : Bool := c == ' ' || isMark c

theorem not_continues_of_free {c : Char} (h : isFree c = true) :
    isWordChar c = false ∧ isOperatorChar c = false ∧ c ≠ d.quoteChar ∧ c ≠ '\'' := by
  have hfree : c ∈ " (),.*+?".toList := by simpa [isFree, isMark] using h
  have hall : (" (),.*+?".toList.all fun c => !isWordChar c && !isOperatorChar c &&
      c != d.quoteChar && c != '\'') = true := by
    cases d <;> rfl
  have hc := List.all_eq_true.mp hall c hfree
  simpa [and_assoc] using hc

/-- A free character ends the token at hand. -/
theorem LexState.step_free {s : LexState} {c : Char} {rest : List Token} (h : isFree c = true)
    (hs : s.finish = some rest) :
    s.step d c = (enter d c).map fun (ts, next) => (rest ++ ts, next) := by
  obtain ⟨hword, hoperator, hquote, hapostrophe⟩ := not_continues_of_free (d := d) h
  have hleave : s.leave d c = (enter d c).map fun (ts, next) => (rest ++ ts, next) := by
    simp only [leave, hs]
    cases enter d c <;> rfl
  cases s with
  | start =>
    obtain rfl := Option.some.inj hs
    cases hc : enter d c <;> simp [step, hc]
  | word read => rw [← hleave, step, if_neg (by simp [hword])]
  | operator read => rw [← hleave, step, if_neg (by simp [hoperator])]
  | identQuote read => rw [← hleave, step, if_neg hquote]
  | textQuote read => rw [← hleave, step, if_neg hapostrophe]
  | ident read => cases hs
  | text read => cases hs

/-- Two texts that do not run together have the tokens of the one, then those of the other. -/
theorem lex_append {a b : List Char} {ts rest us : List Token} {last : LexState}
    (ha : start.run d a = some (ts, last)) (hlast : last.finish = some rest)
    (hb : lex d b = some us) (hfree : last = start ∨ ∀ c ∈ b.head?, isFree c = true) :
    lex d (a ++ b) = some (ts ++ rest ++ us) := by
  -- From where the first text ends, the second reads as from the start.
  have hrun : ∀ vs next, start.run d b = some (vs, next) →
      last.run d b = some (rest ++ vs, next) ∨ b = [] := by
    intro vs next hvs
    rcases hfree with rfl | hfree
    · obtain rfl := Option.some.inj hlast
      exact .inl hvs
    · cases b with
      | nil => exact .inr rfl
      | cons c b =>
        left
        have hc := hfree c rfl
        simp only [run, step] at hvs
        simp only [run, LexState.step_free hc hlast]
        cases henter : enter d c with
        | none => simp [henter] at hvs
        | some r =>
          obtain ⟨es, then'⟩ := r
          simp only [henter, Option.bind_eq_bind, Option.bind_some, Option.map_some] at hvs ⊢
          cases hthen : then'.run d b with
          | none => simp [hthen] at hvs
          | some r =>
            simp only [hthen, Option.bind_some, Option.pure_def, Option.some.injEq,
              Prod.mk.injEq] at hvs ⊢
            rw [← hvs.1, ← hvs.2, List.append_assoc]
            exact ⟨rfl, rfl⟩
  simp only [lex] at hb ⊢
  cases hvs : start.run d b with
  | none => simp [hvs] at hb
  | some r =>
    obtain ⟨vs, next⟩ := r
    simp only [LexState.run_append, ha, Option.bind_some]
    rcases hrun vs next hvs with hlastrun | rfl
    · simp only [hvs, Option.bind_eq_bind, Option.bind_some] at hb
      simp only [hlastrun, Option.map_some, Option.bind_eq_bind, Option.bind_some]
      cases hnext : next.finish with
      | none => simp [hnext] at hb
      | some fs =>
        simp only [hnext, Option.bind_some, Option.pure_def, Option.some.injEq] at hb ⊢
        rw [← hb]
        simp only [List.append_assoc]
    · simp only [run, Option.some.injEq, Prod.mk.injEq] at hvs
      obtain ⟨rfl, rfl⟩ := hvs
      simp only [run, finish, Option.bind_eq_bind, Option.bind_some, Option.pure_def,
        Option.some.injEq] at hb
      simp [run, hlast, ← hb]

/-! ## Single pieces -/

theorem enter_wordChar {c : Char} (h : isWordChar c = true) :
    enter d c = some ([], .word [c]) := by
  have hfree : isFree c = false := by
    cases hc : isFree c with
    | false => rfl
    | true => exact absurd h (by simp [(not_continues_of_free (d := d) hc).1])
  simp only [isFree, Bool.or_eq_false_iff, beq_eq_false_iff_ne] at hfree
  simp [enter, hfree.1, hfree.2, h]

/-- A text of letters and digits is one word. -/
theorem run_word {c : Char} {w : List Char} (h : ∀ c' ∈ c :: w, isWordChar c' = true) :
    start.run d (c :: w) = some ([], .word (c :: w).reverse) := by
  have hrest : ∀ (w read : List Char), (∀ c ∈ w, isWordChar c = true) →
      (LexState.word read).run d w = some ([], .word (w.reverse ++ read)) := by
    intro w
    induction w with
    | nil => intro read _; rfl
    | cons c w ih =>
      intro read hw
      have hc := hw c List.mem_cons_self
      have htail := ih (c :: read) fun c' hc' => hw c' (List.mem_cons_of_mem c hc')
      simp [run, step, hc, htail]
  have hc := enter_wordChar (d := d) (h c List.mem_cons_self)
  have htail := hrest w [c] fun c' hc' => h c' (List.mem_cons_of_mem c hc')
  simp [run, step, hc, htail]

/-- Whatever is written between quotes is read as one identifier. -/
theorem run_quote (d : Dialect) (ident : String) :
    start.run d (d.quote ident).toList = some ([], .identQuote ident.toList.reverse) := by
  have hbody : ∀ (cs read : List Char), (LexState.ident read).run d
      (Dialect.doubleQuotes d.quoteChar cs ++ [d.quoteChar]) =
        some ([], .identQuote (cs.reverse ++ read)) := by
    intro cs
    induction cs with
    | nil => intro read; simp [Dialect.doubleQuotes, run, step]
    | cons c cs ih =>
      intro read
      unfold Dialect.doubleQuotes
      split
      case isTrue hc =>
        have htail := ih (d.quoteChar :: read)
        simp [run, step, htail, hc]
      case isFalse hc =>
        have htail := ih (c :: read)
        simp [run, step, htail, hc]
  have hquote : enter d d.quoteChar = some ([], .ident []) := by cases d <;> rfl
  have htail := hbody ident.toList []
  simp only [Dialect.quote, String.toList_ofList, List.append_nil] at htail ⊢
  simp [run, step, hquote, htail]

/-- The token of a placeholder. -/
def placeholderToken (d : Dialect) (n : Nat) : Token :=
  match d with
  | .postgres => .word (d.placeholder n)
  | .mysql | .sqlite => .mark '?'

theorem isDigit_of_mem_toList {n : Nat} {c : Char} (h : c ∈ (toString n).toList) :
    c.isDigit = true := by
  rw [Nat.toString_eq_repr, Nat.toList_repr] at h
  exact Nat.isDigit_of_mem_toDigits (by omega) (by omega) h

theorem isWordChar_of_isDigit {c : Char} (h : c.isDigit = true) : isWordChar c = true := by
  simp [isWordChar, Char.isAlphanum, h]

theorem number?_toString (n : Nat) : number? (toString n).toList = some n := by
  have hdigits : (toString n).toList.all Char.isDigit = true :=
    List.all_eq_true.mpr fun c hc => isDigit_of_mem_toList hc
  have hne : (toString n).toList ≠ [] := by
    rw [Nat.toString_eq_repr]
    simp
  rw [number?, if_pos ⟨hne, hdigits⟩, Nat.toString_eq_repr, Nat.toList_repr]
  rw [Nat.ofDigitChars_toDigits (by omega) (by omega)]

theorem lex_placeholder (d : Dialect) (n : Nat) : ∃ ts last rest,
    start.run d (d.placeholder n).toList = some (ts, last) ∧ last.finish = some rest ∧
      ts ++ rest = [placeholderToken d n] := by
  have hmark : ∀ d, start.run d "?".toList = some ([.mark '?'], .start) := by
    intro d
    cases d <;> rfl
  cases d with
  | mysql => exact ⟨[.mark '?'], .start, [], hmark _, rfl, rfl⟩
  | sqlite => exact ⟨[.mark '?'], .start, [], hmark _, rfl, rfl⟩
  | postgres =>
    have htext : (Dialect.placeholder .postgres n).toList = '$' :: (toString n).toList := by
      simp [Dialect.placeholder]
    have hword : ∀ c ∈ '$' :: (toString n).toList, isWordChar c = true := by
      intro c hc
      rcases List.mem_cons.mp hc with rfl | hc
      · rfl
      · exact isWordChar_of_isDigit (isDigit_of_mem_toList hc)
    refine ⟨[], _, _, by rw [htext]; exact run_word hword, rfl, ?_⟩
    rw [List.reverse_reverse, ← htext, String.ofList_toList]
    rfl

/-! ## Lists of pieces -/

/-- The token stands for an argument. -/
def Token.isPlaceholder : Token → Bool
  | .mark c => c == '?'
  | .word w => (position? w).isSome
  | _ => false

/-- The text of a fixed piece has tokens, and none of them is a placeholder. -/
def isPlain (d : Dialect) (s : String) : Bool :=
  match start.run d s.toList with
  | some (ts, last) =>
    match last.finish with
    | some rest => (ts ++ rest).all fun t => !t.isPlaceholder
    | none => false
  | none => false

/-- No token goes on beyond the end of a fixed piece. -/
def endsFree (d : Dialect) (s : String) : Bool :=
  match start.run d s.toList with
  | some (_, .start) => true
  | _ => false

/-- No token goes on into a fixed piece. -/
def startsFree (s : String) : Bool := s.toList.head?.any isFree

/-- The tokens of a piece, with the value of a bound piece in its place. -/
def pieceTokens (d : Dialect) : Piece → List Token
  | .raw s => (lex d s.toList).getD []
  | .quoted ident => [.ident ident]
  | .bound v => [.value v]

/-- The piece is read as it is meant, where its neighbors do not run into it. -/
def IsPlainPiece (d : Dialect) : Piece → Prop
  | .raw s => isPlain d s = true
  | .quoted _ | .bound _ => True

/-- Neighbors that do not run together. -/
def Apart (d : Dialect) (p q : Piece) : Prop :=
  (∃ s, p = .raw s ∧ endsFree d s = true) ∨ ∃ s, q = .raw s ∧ startsFree s = true

/-- Each piece of a statement is read as it is meant. -/
def Readable (d : Dialect) (ps : List Piece) : Prop :=
  (∀ p ∈ ps, IsPlainPiece d p) ∧ ps.IsChain (Apart d)

/-- The tokens of a piece before arguments are filled in, where `n` placeholders stand before. -/
def unfilledTokens (d : Dialect) (n : Nat) : Piece → List Token
  | .raw s => pieceTokens d (.raw s)
  | .quoted ident => [.ident ident]
  | .bound _ => [placeholderToken d (n + 1)]

/-- The tokens of pieces before arguments are filled in. -/
def unfilled (d : Dialect) : Nat → List Piece → List Token
  | _, [] => []
  | n, .bound v :: rest => unfilledTokens d n (.bound v) ++ unfilled d (n + 1) rest
  | n, p :: rest => unfilledTokens d n p ++ unfilled d n rest

/-- The text of a piece. -/
def pieceText (d : Dialect) (n : Nat) : Piece → String
  | .raw s => s
  | .quoted ident => d.quote ident
  | .bound _ => d.placeholder (n + 1)

theorem plain_run {s : String} (h : isPlain d s = true) : ∃ ts last rest,
    start.run d s.toList = some (ts, last) ∧ last.finish = some rest ∧
      pieceTokens d (.raw s) = ts ++ rest ∧ ∀ t ∈ ts ++ rest, t.isPlaceholder = false := by
  unfold isPlain at h
  split at h
  case h_1 ts last hrun =>
    split at h
    case h_1 rest hlast =>
      refine ⟨ts, last, rest, hrun, hlast, ?_, fun t ht => ?_⟩
      · simp [pieceTokens, lex, hrun, hlast]
      · simpa using List.all_eq_true.mp h t ht
    case h_2 => cases h
  case h_2 => cases h

/-- What is read of the text of a piece, by itself. -/
theorem piece_run {n : Nat} {p : Piece} (h : IsPlainPiece d p) : ∃ ts last rest,
    start.run d (pieceText d n p).toList = some (ts, last) ∧ last.finish = some rest ∧
      unfilledTokens d n p = ts ++ rest := by
  cases p with
  | raw s =>
    obtain ⟨ts, last, rest, hrun, hlast, htokens, -⟩ := plain_run h
    exact ⟨ts, last, rest, hrun, hlast, htokens⟩
  | quoted ident =>
    refine ⟨[], _, _, run_quote d ident, rfl, ?_⟩
    simp [unfilledTokens]
  | bound v =>
    obtain ⟨ts, last, rest, hrun, hlast, htokens⟩ := lex_placeholder d (n + 1)
    exact ⟨ts, last, rest, hrun, hlast, htokens.symm⟩

theorem texts_cons (n : Nat) (p : Piece) (rest : List Piece) : ∃ m,
    Piece.texts d n (p :: rest) = pieceText d n p :: Piece.texts d m rest ∧
      unfilled d n (p :: rest) = unfilledTokens d n p ++ unfilled d m rest := by
  cases p with
  | raw s => exact ⟨n, rfl, rfl⟩
  | quoted ident => exact ⟨n, rfl, rfl⟩
  | bound v => exact ⟨n + 1, rfl, rfl⟩

/-- The text of readable pieces is cut into the tokens of the pieces. -/
theorem lex_texts {ps : List Piece} (h : Readable d ps) (n : Nat) :
    lex d ((Piece.texts d n ps).flatMap String.toList) = some (unfilled d n ps) := by
  induction ps generalizing n with
  | nil => rfl
  | cons p rest ih =>
    obtain ⟨hplain, hchain⟩ := h
    obtain ⟨m, htexts, hunfilled⟩ := texts_cons (d := d) n p rest
    obtain ⟨ts, last, us, hrun, hlast, htokens⟩ :=
      piece_run (n := n) (hplain p List.mem_cons_self)
    have hrest := ih ⟨fun q hq => hplain q (List.mem_cons_of_mem p hq), hchain.tail⟩ m
    rw [htexts, hunfilled, htokens, List.flatMap_cons]
    refine lex_append hrun hlast hrest ?_
    cases rest with
    | nil =>
      right
      intro c hc
      cases hc
    | cons q rest =>
      rcases List.isChain_cons_cons.mp hchain |>.1 with ⟨s, rfl, hends⟩ | ⟨s, rfl, hstarts⟩
      · left
        unfold endsFree at hends
        split at hends
        case h_1 ts' hrun' => exact (Prod.mk.inj (Option.some.inj (hrun.symm.trans hrun'))).2
        case h_2 => cases hends
      · right
        intro c hc
        unfold startsFree at hstarts
        rw [Piece.texts, List.flatMap_cons] at hc
        cases htext : s.toList with
        | nil => simp [htext] at hstarts
        | cons c' cs =>
          rw [htext] at hc hstarts
          obtain rfl : c' = c := by simpa using hc
          simpa using hstarts

theorem fill_plain {args : List Value} {n : Nat} {ts us : List Token}
    (h : ∀ t ∈ ts, t.isPlaceholder = false) :
    fill args n (ts ++ us) = (fill args n us).map (ts ++ ·) := by
  induction ts with
  | nil => cases hus : fill args n us <;> simp [hus]
  | cons t ts ih =>
    have htail := ih fun t' ht' => h t' (List.mem_cons_of_mem t ht')
    have ht := h t List.mem_cons_self
    cases t with
    | mark c =>
      have hc : c ≠ '?' := by simpa [Token.isPlaceholder] using ht
      rw [List.cons_append, fill]
      · rw [htail]
        cases fill args n us <;> rfl
      all_goals simp_all
    | word w =>
      have hw : position? w = none := by simpa [Token.isPlaceholder] using ht
      rw [List.cons_append, fill, hw, htail]
      cases fill args n us <;> rfl
    | operator w | ident w | text w | value w =>
      rw [List.cons_append, fill, htail]
      · cases fill args n us <;> rfl
      all_goals simp

theorem position?_placeholder (n : Nat) :
    position? (Dialect.placeholder .postgres n) = some n := by
  have htext : (Dialect.placeholder .postgres n).toList = '$' :: (toString n).toList := by
    simp [Dialect.placeholder]
  simp only [position?, htext]
  exact number?_toString n

theorem fill_placeholder {args : List Value} {n : Nat} {v : Value} {ts : List Token}
    (hv : args[n]? = some v) :
    fill args n (placeholderToken d (n + 1) :: ts) =
      (fill args (n + 1) ts).map (Token.value v :: ·) := by
  cases d with
  | postgres =>
    rw [placeholderToken, fill, position?_placeholder]
    simp only [Nat.add_one_ne_zero, if_false, Nat.add_sub_cancel, hv]
    cases fill args (n + 1) ts <;> rfl
  | mysql | sqlite =>
    rw [placeholderToken, fill, hv]
    cases fill args (n + 1) ts <;> rfl

/-- Filling in the arguments of readable pieces leaves each value in the place where it is bound. -/
theorem fill_unfilled {ps : List Piece} (h : ∀ p ∈ ps, IsPlainPiece d p) (args before : List Value)
    (hargs : args = before ++ ps.filterMap Piece.value?) :
    fill args before.length (unfilled d before.length ps) = some (ps.flatMap (pieceTokens d)) := by
  induction ps generalizing before with
  | nil => rfl
  | cons p rest ih =>
    have hrest := fun q hq => h q (List.mem_cons_of_mem p hq)
    cases p with
    | raw s =>
      obtain ⟨_, _, _, -, -, htokens, hplain⟩ := plain_run (h _ List.mem_cons_self)
      rw [← htokens] at hplain
      simp only [unfilled, unfilledTokens, fill_plain hplain, ih hrest _ hargs]
      rfl
    | quoted ident =>
      have hplain : ∀ t ∈ [Token.ident ident], t.isPlaceholder = false := by
        simp [Token.isPlaceholder]
      simp only [unfilled, unfilledTokens, fill_plain hplain, ih hrest _ hargs]
      rfl
    | bound v =>
      have hargs : args = (before ++ [v]) ++ rest.filterMap Piece.value? := by
        rw [hargs, List.append_assoc]
        rfl
      have hv : args[before.length]? = some v := by simp [hargs]
      have hlength : (before ++ [v]).length = before.length + 1 := by simp
      have htail := ih hrest _ hargs
      rw [hlength] at htail
      simp only [unfilled, unfilledTokens, List.singleton_append, fill_placeholder hv, htail]
      rfl

/-- The tokens of a statement are those of its pieces, each argument in its place. -/
theorem tokens_ofPieces {ps : List Piece} (h : Readable d ps) :
    tokens d (.ofPieces d ps) = some (ps.flatMap (pieceTokens d)) := by
  have hlex := lex_texts h 0
  have hfill := fill_unfilled h.1 (ps.filterMap Piece.value?) [] rfl
  simp only [List.length_nil] at hfill
  simp only [tokens, Statement.ofPieces, String.toList_join, hlex]
  exact hfill

/-! ## Putting readable pieces together -/

/-- A fixed text that keeps its neighbors apart. -/
def isSpacer (d : Dialect) (s : String) : Bool := isPlain d s && endsFree d s && startsFree s

theorem Readable.nil : Readable d [] := ⟨by simp, .nil⟩

theorem Readable.single {p : Piece} (h : IsPlainPiece d p) : Readable d [p] :=
  ⟨by simpa using h, .singleton p⟩

theorem Readable.append {a b : List Piece} (ha : Readable d a) (hb : Readable d b)
    (h : ∀ p ∈ a.getLast?, ∀ q ∈ b.head?, Apart d p q) : Readable d (a ++ b) := by
  refine ⟨fun p hp => ?_, List.isChain_append.mpr ⟨ha.2, hb.2, h⟩⟩
  rcases List.mem_append.mp hp with hp | hp
  · exact ha.1 p hp
  · exact hb.1 p hp

/-- A fixed text before pieces. -/
theorem Readable.after {s : String} {ps : List Piece} (hs : (isPlain d s && endsFree d s) = true)
    (h : Readable d ps) : Readable d (.raw s :: ps) := by
  obtain ⟨hplain, hends⟩ := Bool.and_eq_true_iff.mp hs
  refine (Readable.single (p := .raw s) hplain).append h fun p hp q _ => .inl ⟨s, ?_, hends⟩
  simpa using hp.symm

/-- A fixed text after pieces. -/
theorem Readable.before {s : String} {ps : List Piece} (hs : (isPlain d s && startsFree s) = true)
    (h : Readable d ps) : Readable d (ps ++ [.raw s]) := by
  obtain ⟨hplain, hstarts⟩ := Bool.and_eq_true_iff.mp hs
  refine h.append (Readable.single (p := .raw s) hplain) fun p _ q hq => .inr ⟨s, ?_, hstarts⟩
  simpa using hq.symm

/-- A fixed text between pieces. -/
theorem Readable.between {s : String} {a b : List Piece} (hs : isSpacer d s = true)
    (ha : Readable d a) (hb : Readable d b) : Readable d (a ++ .raw s :: b) := by
  unfold isSpacer at hs
  obtain ⟨hs, hstarts⟩ := Bool.and_eq_true_iff.mp hs
  refine ha.append (hb.after hs) fun p _ q hq => .inr ⟨s, ?_, hstarts⟩
  simpa using hq.symm

end EntityGraph.Sql
