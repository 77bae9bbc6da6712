import JavaGraft.Proofs.Token.Places
import Mathlib.Data.List.GetD

/-!
# Looking ahead in a stream

A stream of tokens may be asked for the next token, for the next token unless it is the end of the
source, and for a token further on without taking any. Asked in any order, it answers as if all
tokens stood in one endless row, the end of the source repeated behind the last one: a request that
takes moves on by one place in the row, and a request that looks moves nowhere
(`JavaGraft.Lexer.answer_ofText`).

To see this, a stream is viewed as the row of the tokens that it still has to hand out, those in its
queue first and then those that are read from its place (`JavaGraft.Lexer.upcoming`). Reading ahead
into the queue leaves the row as it is, and taking a token drops the first one of it.
-/

namespace JavaGraft

namespace Lexer

/-! ### The row of tokens behind a cursor -/

/-- The token number `n` of those that are read from a cursor, counted from zero. -/
def nthFrom : Nat → Cursor → Token
  | 0, c => (read c).token
  | n + 1, c => nthFrom n (read c).next

/-- **At the end of the source nothing moves**: reading on finds the end again. -/
theorem read_next_of_end {c : Cursor} (h : (read c).token.kind = .endOfSource) :
    read (read c).next = read c := by
  have hread := read_spec c
  generalize read c = r at h hread ⊢
  cases hread with
  | finish => rfl
  | token _ _ _ _ _ _ hcovers => exact (hcovers.kind h).elim

theorem nthFrom_of_end {c : Cursor} (h : (read c).token.kind = .endOfSource) (n : Nat) :
    nthFrom n c = (read c).token := by
  induction n generalizing c with
  | zero => rfl
  | succ n ih =>
    have hread := read_next_of_end h
    rw [nthFrom, ih (by rw [hread]; exact h), hread]

end Lexer

/-- The token number `n` of a text, counted from zero; behind the last one the end of the source is
repeated. -/
def Tokens.nth (r : Tokens) (n : Nat) : Token := r.tokens.getD n r.finish

/-- Reading all at once finds the row of tokens. -/
theorem Tokens.nth_readAll {n : Nat} {c : Cursor} (h : c.rest.length < n) (i : Nat) :
    (readAll n c).nth i = Lexer.nthFrom i c := by
  induction n generalizing c i with
  | zero => omega
  | succ n ih =>
    rw [readAll]
    by_cases hkind : (Lexer.read c).token.kind = .endOfSource
    · rw [if_pos hkind, Lexer.nthFrom_of_end hkind]
      rfl
    · have hless := (Lexer.read_spec c).shorter hkind
      rw [if_neg hkind]
      cases i with
      | zero => rfl
      | succ i =>
        rw [Lexer.nthFrom, ← ih (by omega)]
        rfl

namespace Lexer

/-! ### What a stream still has to hand out -/

/-- **The row of tokens that a stream still has to hand out**: those in its queue, then those that
are read from its place. -/
def upcoming (l : Lexer) (i : Nat) : Token :=
  l.queue.getD i (nthFrom (i - l.queue.length) l.place)

theorem upcoming_of_lt {l : Lexer} {i : Nat} (h : i < l.queue.length) :
    l.upcoming i = l.queue[i] := by
  rw [upcoming, List.getD_eq_getElem _ _ h]

theorem upcoming_of_le {l : Lexer} {i : Nat} (h : l.queue.length ≤ i) :
    l.upcoming i = nthFrom (i - l.queue.length) l.place := by
  rw [upcoming, List.getD_eq_default _ _ h]

theorem upcoming_ofText (cs : List Char) (i : Nat) : (ofText cs).upcoming i = (tokenize cs).nth i :=
  (Tokens.nth_readAll (Nat.lt_succ_self _) i).symm

/-- **Taking a token drops the first one of the row.** -/
theorem next_spec (l : Lexer) :
    l.next.1 = l.upcoming 0 ∧ ∀ i, l.next.2.upcoming i = l.upcoming (i + 1) := by
  obtain ⟨place, queue, errors⟩ := l
  cases queue with
  | nil => exact ⟨rfl, fun i => rfl⟩
  | cons t ts =>
    refine ⟨rfl, fun i => ?_⟩
    have hnumber : i + 1 - (t :: ts).length = i - ts.length := by
      rw [List.length_cons, Nat.add_sub_add_right]
    simp only [next, upcoming, hnumber, List.getD_cons_succ]

/-- A token that is read ahead into the queue is the next one of the row, which stays. -/
theorem upcoming_enqueue (l : Lexer) (i : Nat) :
    Lexer.upcoming { l.advance.2 with queue := l.advance.2.queue ++ [l.advance.1] } i
      = l.upcoming i := by
  obtain ⟨place, queue, errors⟩ := l
  rcases Nat.lt_trichotomy i queue.length with hlt | rfl | hlt
  · rw [upcoming_of_lt (l := ⟨place, queue, errors⟩) hlt, upcoming_of_lt (by simp [advance]; omega)]
    exact List.getElem_append_left hlt
  · rw [upcoming_of_le (l := ⟨place, queue, errors⟩) le_rfl,
      upcoming_of_lt (by simp [advance])]
    simp [advance, nthFrom]
  · obtain ⟨k, rfl⟩ := Nat.exists_eq_add_of_lt hlt
    rw [upcoming_of_le (l := ⟨place, queue, errors⟩) hlt.le,
      upcoming_of_le (by simp [advance])]
    have hnumber : queue.length + k + 1 - (queue ++ [(read place).token]).length = k := by
      rw [List.length_append, List.length_singleton]
      omega
    have hnumber' : queue.length + k + 1 - queue.length = k + 1 := by omega
    simp only [advance, hnumber, hnumber', nthFrom]

theorem fill_spec (n : Nat) (l : Lexer) :
    (fill n l).queue.length = l.queue.length + n ∧ ∀ i, (fill n l).upcoming i = l.upcoming i := by
  induction n generalizing l with
  | zero => exact ⟨rfl, fun i => rfl⟩
  | succ n ih =>
    rw [fill]
    obtain ⟨hlength, hrow⟩ := ih { l.advance.2 with queue := l.advance.2.queue ++ [l.advance.1] }
    refine ⟨?_, fun i => (hrow i).trans (l.upcoming_enqueue i)⟩
    rw [hlength]
    simp only [advance, List.length_append, List.length_singleton]
    omega

/-- **Looking ahead shows a token of the row and leaves the row as it is.** -/
theorem peekNth_spec (l : Lexer) (n : Nat) :
    (l.peekNth n).1 = some (l.upcoming n) ∧ ∀ i, (l.peekNth n).2.upcoming i = l.upcoming i := by
  obtain ⟨hlength, hrow⟩ := fill_spec (n + 1 - l.queue.length) l
  refine ⟨?_, hrow⟩
  have hlt : n < (fill (n + 1 - l.queue.length) l).queue.length := by omega
  rw [← hrow n, upcoming_of_lt hlt]
  exact List.getElem?_eq_getElem hlt

theorem taken_spec (n : Nat) (l : Lexer) :
    (taken n l).1 = (List.range n).map l.upcoming ∧
      ∀ i, (taken n l).2.upcoming i = l.upcoming (i + n) := by
  induction n generalizing l with
  | zero => exact ⟨rfl, fun i => rfl⟩
  | succ n ih =>
    obtain ⟨hfirst, hnext⟩ := l.next_spec
    obtain ⟨htaken, hrow⟩ := ih l.next.2
    have hstep : taken (n + 1) l = (l.next.1 :: (taken n l.next.2).1, (taken n l.next.2).2) := rfl
    rw [hstep]
    refine ⟨?_, fun i => ?_⟩
    · rw [htaken, hfirst, List.range_succ_eq_map, List.map_cons, List.map_map]
      exact congrArg _ (List.map_congr_left fun i _ => hnext i)
    · rw [hrow i, hnext, Nat.add_assoc]

/-! ### Requests in any order -/

/-- What a stream may be asked for. -/
inductive Request where
  /-- The next token. -/
  | next
  /-- The next token, unless it is the end of the source; the end is taken as well. -/
  | next?
  /-- The token that comes some places after the next one, which is not taken. -/
  | peek (n : Nat)
deriving DecidableEq

namespace Request

/-- Whether a request takes a token. -/
def takes : Request → Bool
  | next | next? => true
  | peek _ => false

/-- The answer that is due if all tokens stand in a row and some have been taken. -/
def due (row : Nat → Token) (taken : Nat) : Request → Option Token
  | next => some (row taken)
  | next? => if (row taken).kind = .endOfSource then none else some (row taken)
  | peek n => some (row (taken + n))

end Request

/-- The answer of a stream, and the stream after it. -/
def answer (l : Lexer) : Request → Option Token × Lexer
  | .next => (some l.next.1, l.next.2)
  | .next? => l.next?
  | .peek n => l.peekNth n

/-- The stream after requests, one after the other. -/
def after (l : Lexer) (rs : List Request) : Lexer := rs.foldl (fun l r => (l.answer r).2) l

/-- **A request** is answered as is due, and moves on in the row if it takes a token. -/
theorem answer_spec {l : Lexer} {row : Nat → Token} {taken : Nat}
    (h : ∀ i, l.upcoming i = row (taken + i)) (r : Request) :
    (l.answer r).1 = r.due row taken ∧
      ∀ i, (l.answer r).2.upcoming i = row (taken + r.takes.toNat + i) := by
  obtain ⟨hfirst, hnext⟩ := l.next_spec
  rw [h 0, Nat.add_zero] at hfirst
  have htaken (i : Nat) : l.next.2.upcoming i = row (taken + 1 + i) := by
    rw [hnext, h, Nat.add_comm i, Nat.add_assoc]
  cases r with
  | next => exact ⟨congrArg some hfirst, htaken⟩
  | next? =>
    refine ⟨?_, htaken⟩
    rw [answer, next?, Request.due, ← hfirst]
  | peek n =>
    obtain ⟨hshown, hrow⟩ := l.peekNth_spec n
    exact ⟨hshown.trans (congrArg some (h n)), fun i => (hrow i).trans (h i)⟩

/-- **Requests, in any order**, move on in the row by as many tokens as they take. -/
theorem upcoming_after (rs : List Request) {l : Lexer} {row : Nat → Token} {taken : Nat}
    (h : ∀ i, l.upcoming i = row (taken + i)) (i : Nat) :
    (l.after rs).upcoming i = row (taken + rs.countP Request.takes + i) := by
  induction rs generalizing l taken with
  | nil => exact h i
  | cons r rs ih =>
    have hcount : (r :: rs).countP Request.takes = r.takes.toNat + rs.countP Request.takes := by
      rw [List.countP_cons, Nat.add_comm]
      cases r <;> rfl
    rw [hcount, ← Nat.add_assoc]
    exact ih (answer_spec h r).2

/-- **Looking ahead does not change what a stream hands out.** Its tokens stand in a row: the row of
those that it hands out one by one from the start. After any requests, the answer to one more is the
one that is due if the requests before it took their tokens in the order of the row and did nothing
else; and looking `n` places further on shows what comes last if the next `n + 1` tokens are taken.
Behind the last token of the source the row goes on with the end of the source, which stands where
the source ends. -/
theorem answer_ofText (cs : List Char) (rs : List Request) :
    (∀ n, ((ofText cs).taken n).1 = (List.range n).map (tokenize cs).nth) ∧
      (∀ r, (((ofText cs).after rs).answer r).1
        = r.due (tokenize cs).nth (rs.countP Request.takes)) ∧
      (∀ n, (((ofText cs).after rs).answer (.peek n)).1
        = (((ofText cs).after rs).taken (n + 1)).1.getLast?) ∧
      ∀ n, (tokenize cs).tokens.length ≤ n →
        (tokenize cs).nth n = ⟨.endOfSource, "", .point (Position.start.afterAll cs)⟩ := by
  have hrow (i : Nat) : (ofText cs).upcoming i = (tokenize cs).nth (0 + i) := by
    rw [upcoming_ofText, Nat.zero_add]
  have hafter := upcoming_after rs hrow
  rw [Nat.zero_add] at hafter
  refine ⟨fun n => ?_, fun r => (answer_spec hafter r).1, fun n => ?_, fun n hn => ?_⟩
  · rw [(taken_spec n _).1]
    exact List.map_congr_left fun i _ => upcoming_ofText cs i
  · rw [(taken_spec (n + 1) _).1, List.range_succ, List.map_append, List.map_singleton,
      List.getLast?_concat]
    exact (peekNth_spec _ n).1
  · obtain ⟨hkind, htext⟩ := (isTiling_tokenize cs).finish
    have hspan := (stands_tokenize cs).2
    rw [Tokens.nth, List.getD_eq_default _ _ hn, ← hkind, ← htext, ← hspan]

/-- Behind a look beyond the end, and with the end taken once, the end is still there. -/
example : (((ofText "a".toList).after [.peek 5, .next, .next?]).answer .next).1
    = some ⟨.endOfSource, "", ⟨1, 0, 1, 2⟩⟩ := by
  rfl

end Lexer

end JavaGraft
