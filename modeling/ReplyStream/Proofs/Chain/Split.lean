/-
Splitting from any offset. A link may begin inside a character of the reply
or behind its end: the reply need not be the one the link was made for. What
the link has to send then begins with that character, and sending a part of
it leaves no more than what stood behind the part (`Link.remainder_advance`).

So every round of a split leaves less (`Link.length_advance_lt`), a round for
each character is enough (`Link.split_eq_split`), and a split can be taken up
again behind any of its parts (`Link.parts_advance`).
-/
import ReplyStream.Proofs.Chain.Parts

namespace ReplyStream

namespace Text

theorem length_dropBytes_le (n : Nat) (s : List Char) : (dropBytes n s).length ≤ s.length := by
  have := congrArg List.length (takeBytes_append_dropBytes n s)
  rw [List.length_append] at this
  omega

theorem dropBytes_add_append (s t : List Char) (n : Nat) :
    dropBytes (byteLength s + n) (s ++ t) = dropBytes n t := by
  induction s with
  | nil => simp
  | cons c s ih =>
    simp only [List.cons_append, byteLength_cons, dropBytes]
    rw [if_pos (by omega), show c.utf8Size + byteLength s + n - c.utf8Size = byteLength s + n by omega]
    exact ih

/-- Behind a cut at `start`, a cut as many bytes later as `part` has leaves no
more than what stands behind `part`. -/
theorem exists_dropBytes_add {start : Nat} {s part behind : List Char} (h : dropBytes start s = part ++ behind) :
    ∃ n, dropBytes (start + byteLength part) s = dropBytes n behind := by
  have hle := byteLength_takeBytes_le start s
  have hs := takeBytes_append_dropBytes start s
  rw [h] at hs
  generalize takeBytes start s = taken at hle hs
  refine ⟨start - byteLength taken, ?_⟩
  calc dropBytes (start + byteLength part) s
      = dropBytes (byteLength (taken ++ part) + (start - byteLength taken)) (taken ++ part ++ behind) := by
        rw [List.append_assoc, hs, byteLength_append]
        congr 1
        omega
    _ = dropBytes (start - byteLength taken) behind := dropBytes_add_append _ _ _

end Text

namespace Link

variable {l : Link} {r : Reply} {ceiling : Nat}

theorem advance_start (l : Link) (part : Part) :
    (l.advance part).reasoning.start = l.reasoning.start + Text.byteLength part.reasoning ∧
      (l.advance part).answer.start = l.answer.start + Text.byteLength part.answer := ⟨rfl, rfl⟩

theorem remainder_advance {part behind : Part} (h : l.remainder r = part ++ behind) :
    ((l.advance part).remainder r).length ≤ behind.length := by
  obtain ⟨m, hm⟩ := Text.exists_dropBytes_add (congrArg Part.reasoning h)
  obtain ⟨n, hn⟩ := Text.exists_dropBytes_add (congrArg Part.answer h)
  have hreasoning := Text.length_dropBytes_le m behind.reasoning
  have hanswer := Text.length_dropBytes_le n behind.answer
  simp only [Part.length, remainder, advance_start, hm, hn]
  omega

theorem length_advance_lt (h : l.exceeds r ceiling = true) :
    ((l.advance (l.carve r ceiling)).remainder r).length < (l.remainder r).length := by
  have hlt : ceiling < (l.remainder r).size := of_decide_eq_true h
  obtain ⟨behind, hbehind, -, hless⟩ := Part.carve_spec hlt
  have hle : ((l.advance (l.carve r ceiling)).remainder r).length ≤ behind.length := remainder_advance hbehind
  omega

theorem exceeds_of_length_eq_zero (ceiling : Nat) (h : (l.remainder r).length = 0) : l.exceeds r ceiling = false := by
  have hnil : (l.remainder r).reasoning = [] ∧ (l.remainder r).answer = [] := by
    simpa [Part.length] using h
  simp [exceeds, Part.size, hnil]

/-- More rounds than there are characters make no difference. -/
theorem split_eq_split {m n : Nat} (hm : (l.remainder r).length ≤ m) (hn : (l.remainder r).length ≤ n) :
    l.split r ceiling m = l.split r ceiling n := by
  induction m generalizing n l with
  | zero =>
    have hfits := exceeds_of_length_eq_zero ceiling (Nat.le_zero.1 hm)
    cases n with
    | zero => rfl
    | succ n => simp [split, hfits]
  | succ m ih =>
    cases n with
    | zero =>
      have hfits := exceeds_of_length_eq_zero ceiling (Nat.le_zero.1 hn)
      simp [split, hfits]
    | succ n =>
      by_cases hexceeds : l.exceeds r ceiling = true
      · have hlt := length_advance_lt hexceeds
        simp only [split, hexceeds, if_true]
        rw [ih (n := n) (by omega) (by omega)]
      · simp [split, hexceeds]

/-- The parts of what a link has to send, but for the last piece. -/
def parts (l : Link) (r : Reply) (ceiling : Nat) : List Part := (l.split r ceiling (l.remainder r).length).1

/-- Behind its first part a split goes on from the link behind that part. -/
theorem parts_advance {part : Part} {rest : List Part} (h : l.parts r ceiling = part :: rest) :
    (l.advance part).parts r ceiling = rest := by
  unfold parts at h
  cases hlen : (l.remainder r).length with
  | zero =>
    rw [hlen] at h
    simp [split] at h
  | succ m =>
    rw [hlen] at h
    by_cases hexceeds : l.exceeds r ceiling = true
    · have hlt := length_advance_lt hexceeds
      simp only [split, hexceeds, if_true, List.cons.injEq] at h
      obtain ⟨rfl, rfl⟩ := h
      rw [parts, split_eq_split (Nat.le_refl _) (n := m) (by omega)]
    · simp [split, hexceeds] at h

end Link

end ReplyStream
