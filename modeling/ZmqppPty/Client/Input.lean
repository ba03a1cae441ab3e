import ZmqppPty.Client.Basic

/-!
# Input from a pipe to the command line client (client/main.cpp)

Lines are written to a pipe in any chunks and the pipe is closed.  `fgets` reads whole chunks, the
poll sees only what is still in the pipe, and the loop is left when the pipe is drained, whatever
`fgets` has in its buffer.

* `Fits`                     a line that `fgets` returns in one piece;
* `fgets_line`               the next line, whatever the chunks;
* `lastRead`                 the text of which the last chunk is the end: what follows the last
                             newline of the chunks before it, and the chunk;
* `messagesOf`               the messages that the lines are;
* `firstMessage`, `linesAfter`   the first of them, and the lines that it leaves;
* `gather_message`           one iteration makes `firstMessage` of the lines.
-/

namespace Zmqpp
namespace Client

open Lib.Lines (unlines incomplete complete runs afterRun)

/-! ## `fgets` -/

/-- a line of a stream -/
structure Fits (l : Bytes) : Prop where
  newline : newline ∉ l
  nul : (0 : UInt8) ∉ l
  length : l.length + 1 < bufferSize

/-- the buffer holds the line -/
theorem fgetsLoop_buffered {room : ℕ} {l rest : Bytes} (hl : newline ∉ l) (hroom : l.length < room)
    (line : Bytes) (deliveries : List Bytes) :
    fgetsLoop room line (l ++ newline :: rest) deliveries
      = (some (line ++ l ++ [newline]), ⟨rest, deliveries⟩) := by
  have htake : (l ++ newline :: rest).take room
      = l ++ newline :: rest.take (room - l.length - 1) := by
    obtain ⟨n, rfl⟩ : ∃ n, room = l.length + (n + 1) := ⟨room - l.length - 1, by omega⟩
    have hn : l.length + (n + 1) - l.length - 1 = n := by omega
    rw [List.take_length_add_append, hn]
    rfl
  have hdrop : (l ++ newline :: rest).drop (l.length + 1) = rest := by
    rw [List.drop_length_add_append]
    rfl
  unfold fgetsLoop
  rw [htake, Lib.Lines.firstLine_append hl]
  dsimp only
  rw [hdrop]

/-- the buffer does not hold the whole line -/
theorem fgetsLoop_read {room : ℕ} {buffer : Bytes} (hl : newline ∉ buffer)
    (hroom : buffer.length < room) (line d : Bytes) (deliveries : List Bytes) :
    fgetsLoop room line buffer (d :: deliveries)
      = fgetsLoop (room - buffer.length) (line ++ buffer) d deliveries := by
  have hnone : Lib.Lines.firstLine newline (buffer.take room) = none :=
    Lib.Lines.firstLine_eq_none fun h => hl (List.mem_of_mem_take h)
  rw [fgetsLoop.eq_def, hnone]
  dsimp only
  rw [if_neg (Nat.not_le_of_lt hroom)]

/-- **The next line is returned**, and no chunk is read that is not needed for it. -/
theorem fgetsLoop_line {deliveries : List Bytes} {room : ℕ} {line buffer l rest : Bytes}
    (hl : newline ∉ l) (hroom : l.length < room)
    (hc : buffer ++ deliveries.flatten = l ++ newline :: rest) :
    ∃ pre buffer' post, deliveries = pre ++ post ∧
      fgetsLoop room line buffer deliveries
        = (some (line ++ l ++ [newline]), ⟨buffer', post⟩) ∧
      buffer ++ pre.flatten = l ++ newline :: buffer' ∧
      ∀ pre' d, pre = pre' ++ [d] → newline ∉ buffer ++ pre'.flatten := by
  induction deliveries generalizing room line buffer l with
  | nil =>
    rw [List.flatten_nil, List.append_nil] at hc
    subst hc
    refine ⟨[], rest, [], rfl, fgetsLoop_buffered hl hroom line [], List.append_nil _, ?_⟩
    intro pre' d hpre
    exact absurd hpre.symm (List.append_ne_nil_of_right_ne_nil pre' (List.cons_ne_nil d []))
  | cons d deliveries ih =>
    by_cases hbuffer : newline ∈ buffer
    · obtain ⟨a, b, rfl, ha⟩ := List.eq_append_cons_of_mem hbuffer
      have hal : a = l := by
        rw [List.append_assoc] at hc
        have hfirst := congrArg (Lib.Lines.firstLine newline) hc
        rw [Lib.Lines.firstLine_append hl, List.cons_append, Lib.Lines.firstLine_append ha]
          at hfirst
        exact (Prod.mk.inj (Option.some.inj hfirst)).1
      subst hal
      refine ⟨[], b, d :: deliveries, rfl, fgetsLoop_buffered hl hroom line _,
        List.append_nil _, ?_⟩
      intro pre' d' hpre
      exact absurd hpre.symm (List.append_ne_nil_of_right_ne_nil pre' (List.cons_ne_nil d' []))
    · -- the buffer is the beginning of the line
      obtain ⟨l', rfl⟩ : ∃ l', l = buffer ++ l' := by
        rcases List.append_eq_append_iff.mp hc with ⟨l', h, -⟩ | ⟨c, h, hrest⟩
        · exact ⟨l', h⟩
        · cases c with
          | nil => exact ⟨[], by rw [h, List.append_nil, List.append_nil]⟩
          | cons x c =>
            obtain ⟨rfl, -⟩ := List.cons.inj hrest
            exact absurd (h ▸ List.mem_append_right l List.mem_cons_self) hbuffer
      rw [List.flatten_cons, List.append_assoc] at hc
      have hc' := List.append_cancel_left hc
      rw [List.length_append] at hroom
      have hl' : newline ∉ l' := fun h => hl (List.mem_append_right buffer h)
      obtain ⟨pre, buffer', post, hsplit, hloop, hpre, hmin⟩ :=
        @ih (room - buffer.length) (line ++ buffer) d l' hl' (by omega) hc'
      refine ⟨d :: pre, buffer', post, ?_, ?_, ?_, ?_⟩
      · rw [hsplit]
        rfl
      · rw [fgetsLoop_read hbuffer (by omega), hloop, List.append_assoc line buffer l']
      · rw [List.flatten_cons, hpre, List.append_assoc]
      · intro pre' d' heq
        cases pre' with
        | nil =>
          rw [List.flatten_nil, List.append_nil]
          exact hbuffer
        | cons d'' pre' =>
          obtain ⟨rfl, htail⟩ := List.cons.inj heq
          rw [List.flatten_cons]
          intro hmem
          rcases List.mem_append.mp hmem with hmem | hmem
          · exact hbuffer hmem
          · exact hmin pre' d' htail hmem

/-- what follows the last newline of the chunks before the last one, and that one -/
def lastRead (stdin : Stdin) : Bytes :=
  incomplete newline (stdin.buffer ++ stdin.deliveries.dropLast.flatten)
    ++ stdin.deliveries.getLastD []

/-- the last chunk is still to be read, or it was read together with the first of these lines -/
def Follows (tail : Bytes) (stdin : Stdin) (lines : List Bytes) : Prop :=
  (stdin.deliveries ≠ [] ∧ lastRead stdin = tail) ∨
    (stdin.deliveries = [] ∧ tail = unlines newline lines)

/-- the lines that are still to be returned, in chunks that are not empty -/
structure Offers (stdin : Stdin) (lines : List Bytes) : Prop where
  content : stdin.content = unlines newline lines
  chunks : ∀ d ∈ stdin.deliveries, d ≠ []
  fits : ∀ l ∈ lines, Fits l

/-- **The next line.**  If the last chunk is read for it, `lastRead` begins with it. -/
theorem fgets_line {stdin : Stdin} {l : Bytes} {lines : List Bytes}
    (h : Offers stdin (l :: lines)) :
    ∃ stdin', fgets bufferSize stdin = (some (l ++ [newline]), stdin') ∧ Offers stdin' lines ∧
      (stdin.deliveries = [] → stdin'.deliveries = []) ∧
      (stdin.deliveries ≠ [] → Follows (lastRead stdin) stdin' (l :: lines)) := by
  have hl := h.fits l List.mem_cons_self
  have hc := h.content
  rw [Lib.Lines.unlines_cons] at hc
  have hroom : l.length < bufferSize - 1 := by
    have := hl.length
    omega
  obtain ⟨pre, buffer', post, hsplit, hloop, hpre, hmin⟩ :=
    @fgetsLoop_line stdin.deliveries (bufferSize - 1) [] stdin.buffer l _ hl.newline hroom hc
  refine ⟨⟨buffer', post⟩, hloop, ⟨?_, ?_, ?_⟩, ?_, ?_⟩
  · -- the rest of the text
    have hall : stdin.buffer ++ stdin.deliveries.flatten
        = l ++ newline :: unlines newline lines := hc
    rw [hsplit, List.flatten_append, ← List.append_assoc, hpre, List.append_assoc] at hall
    exact (List.cons.inj (List.append_cancel_left hall)).2
  · intro d hd
    exact h.chunks d (hsplit ▸ List.mem_append_right pre hd)
  · exact fun l' hl' => h.fits l' (List.mem_cons_of_mem l hl')
  · intro hnone
    rw [hnone] at hsplit
    exact (List.append_eq_nil_iff.mp hsplit.symm).2
  · intro hsome
    by_cases hpost : post = []
    · -- the last chunk is read
      subst hpost
      rw [List.append_nil] at hsplit
      refine Or.inr ⟨rfl, ?_⟩
      rcases List.eq_nil_or_concat pre with rfl | ⟨pre', d, rfl⟩
      · exact absurd hsplit hsome
      · rw [List.concat_eq_append] at hsplit
        have hfirst := hmin pre' d (List.concat_eq_append ..)
        unfold lastRead
        rw [hsplit, List.dropLast_concat, List.getLastD_concat,
          Lib.Lines.incomplete_of_not_mem hfirst, Lib.Lines.unlines_cons, ← hc]
        show _ = stdin.buffer ++ stdin.deliveries.flatten
        rw [hsplit, List.flatten_append, List.append_assoc]
        simp
    · refine Or.inl ⟨hpost, ?_⟩
      unfold lastRead
      rw [hsplit, List.dropLast_append_of_ne_nil hpost, List.flatten_append, ← List.append_assoc,
        hpre, List.append_assoc, List.cons_append, Lib.Lines.incomplete_append,
        List.getLastD_eq_getLast?, List.getLastD_eq_getLast?,
        List.getLast?_append_of_ne_nil _ hpost]

/-- the end of the stream -/
theorem fgets_end {stdin : Stdin} (h : Offers stdin []) :
    stdin.deliveries = [] ∧ fgets bufferSize stdin = (none, {}) := by
  obtain ⟨hbuffer, hflatten⟩ := List.append_eq_nil_iff.mp h.content
  have hdeliveries : stdin.deliveries = [] := by
    rw [List.eq_nil_iff_forall_not_mem]
    intro d hd
    exact h.chunks d hd (List.flatten_eq_nil_iff.mp hflatten d hd)
  refine ⟨hdeliveries, ?_⟩
  unfold fgets
  rw [hbuffer, hdeliveries]
  rfl

/-! ## messages -/

/-- the messages that lines are: one for each line that is not empty, or one for each run of such
lines -/
def messagesOf (singlepart : Bool) (lines : List Bytes) : List (List Bytes) :=
  if singlepart then (lines.filter fun l => l ≠ []).map fun l => [l] else runs lines

/-- the parts that one iteration makes of the lines -/
def firstMessage (singlepart : Bool) (lines : List Bytes) : List Bytes :=
  if singlepart then (lines.take 1).filter fun l => l ≠ [] else lines.takeWhile fun l => l ≠ []

/-- the lines it leaves -/
def linesAfter (singlepart : Bool) (lines : List Bytes) : List Bytes :=
  if singlepart then lines.tail else afterRun lines

theorem messagesOf_eq (singlepart : Bool) (lines : List Bytes) :
    messagesOf singlepart lines =
      (if firstMessage singlepart lines = [] then [] else [firstMessage singlepart lines])
        ++ messagesOf singlepart (linesAfter singlepart lines) := by
  cases singlepart with
  | false => exact Lib.Lines.runs_eq lines
  | true =>
    cases lines with
    | nil => rfl
    | cons l lines =>
      by_cases hl : l = []
      · simp [messagesOf, firstMessage, linesAfter, hl]
      · simp [messagesOf, firstMessage, linesAfter, hl]

theorem messagesOf_eq_nil {singlepart : Bool} {lines : List Bytes} :
    messagesOf singlepart lines = [] ↔ ∀ l ∈ lines, l = [] := by
  cases singlepart with
  | false => exact Lib.Lines.runs_eq_nil
  | true => simp [messagesOf]

theorem firstMessage_empty (singlepart : Bool) (lines : List Bytes) :
    firstMessage singlepart ([] :: lines) = [] := by
  cases singlepart with
  | false => rfl
  | true => rfl

theorem linesAfter_empty (singlepart : Bool) (lines : List Bytes) :
    linesAfter singlepart ([] :: lines) = lines := by
  cases singlepart with
  | false => rfl
  | true => rfl

theorem linesAfter_nil (singlepart : Bool) : linesAfter singlepart [] = [] := by
  cases singlepart with
  | false => rfl
  | true => rfl

theorem linesAfter_sublist (singlepart : Bool) (lines : List Bytes) :
    (linesAfter singlepart lines).Sublist lines := by
  cases singlepart with
  | false =>
    exact (List.tail_sublist _).trans (List.dropWhile_sublist _)
  | true => exact List.tail_sublist lines

/-- an iteration takes one line at least -/
theorem linesAfter_length (singlepart : Bool) (l : Bytes) (lines : List Bytes) :
    (linesAfter singlepart (l :: lines)).length ≤ lines.length := by
  cases singlepart with
  | false =>
    show (afterRun (l :: lines)).length ≤ lines.length
    rw [Lib.Lines.afterRun_cons]
    split
    · exact Nat.le_refl _
    · exact (linesAfter_sublist false lines).length_le
  | true => exact Nat.le_refl _

/-! ## one iteration -/

/-- the last chunk is still to be read, or what is left are the lines after the first message of
`tail` -/
def Drains (tail : Bytes) (singlepart : Bool) (stdin : Stdin) (lines : List Bytes) : Prop :=
  (stdin.deliveries ≠ [] ∧ lastRead stdin = tail) ∨
    (stdin.deliveries = [] ∧ ∃ ls, tail = unlines newline ls ∧ (∀ l ∈ ls, Fits l) ∧
      linesAfter singlepart ls = lines)

theorem Follows.drains {tail : Bytes} {stdin : Stdin} {lines : List Bytes}
    (h : Follows tail stdin lines) (hfits : ∀ l ∈ lines, Fits l) (singlepart : Bool) :
    Drains tail singlepart stdin (linesAfter singlepart lines) := by
  rcases h with h | ⟨h, htail⟩
  · exact Or.inl h
  · exact Or.inr ⟨h, lines, htail, hfits, rfl⟩

theorem Drains.lastRead_eq {tail : Bytes} {singlepart : Bool} {stdin : Stdin} {lines : List Bytes}
    (h : Drains tail singlepart stdin lines) (hin : stdin.deliveries ≠ []) :
    lastRead stdin = tail := by
  rcases h with ⟨-, htail⟩ | ⟨hend, -⟩
  · exact htail
  · exact absurd hend hin

theorem strlen_line {l : Bytes} (hl : Fits l) : strlen (l ++ [newline] ++ [0]) = l.length + 1 := by
  have hnul : (0 : UInt8) ∉ l ++ [newline] := by
    intro h
    rcases List.mem_append.mp h with h | h
    · exact hl.nul h
    · exact absurd (List.mem_singleton.mp h) (by decide)
  have hlen := Message.strlen_memory ⟨l ++ [newline], hnul⟩
  rw [List.length_append] at hlen
  exact hlen

/-- an empty line ends the loop -/
theorem gather_empty (singlepart : Bool) (fuel : ℕ) (message : List Bytes) (stdin : Stdin) :
    gather singlepart (fuel + 1) (some ([] ++ [newline])) message stdin
      = some (.message message stdin) := rfl

/-- any other line is a part -/
theorem gather_part {l : Bytes} (hl : Fits l) (hne : l ≠ []) (singlepart : Bool) (fuel : ℕ)
    (message : List Bytes) (stdin : Stdin) :
    gather singlepart (fuel + 1) (some (l ++ [newline])) message stdin =
      if singlepart then some (.message (message ++ [l]) stdin)
      else gather singlepart fuel (fgets bufferSize stdin).1 (message ++ [l])
        (fgets bufferSize stdin).2 := by
  have hpos : ¬ l.length = 0 := fun h => hne (List.length_eq_zero_iff.mp h)
  rw [gather]
  dsimp only
  rw [strlen_line hl, Nat.add_sub_cancel, if_neg (Nat.succ_ne_zero _), if_neg hpos,
    List.take_left]

/-- a part of a message, and the line after it -/
theorem Drains.next {tail l : Bytes} {lines left : List Bytes} {stdin stdin' : Stdin}
    {singlepart : Bool} (h : Drains tail singlepart stdin left)
    (hend : stdin.deliveries = [] → stdin'.deliveries = [])
    (hsome : stdin.deliveries ≠ [] → Follows (lastRead stdin) stdin' (l :: lines))
    (hfits : ∀ l' ∈ l :: lines, Fits l') (hleft : linesAfter singlepart (l :: lines) = left) :
    Drains tail singlepart stdin' left := by
  rcases h with ⟨hne, rfl⟩ | ⟨hnil, hls⟩
  · exact hleft ▸ (hsome hne).drains hfits singlepart
  · exact Or.inr ⟨hend hnil, hls⟩

/-- the loop has made a message of the first lines, and the others are left -/
def Gathers (tail : Bytes) (singlepart : Bool) (lines : List Bytes) (message : List Bytes)
    (gathered : Option Gathered) : Prop :=
  ∃ stdin, gathered = some (.message (message ++ firstMessage singlepart lines) stdin) ∧
    Offers stdin (linesAfter singlepart lines) ∧
    Drains tail singlepart stdin (linesAfter singlepart lines)

/-- **The loop over a run of lines.** -/
theorem gather_runs {tail : Bytes} {lines : List Bytes} {l : Bytes} {stdin : Stdin} {fuel : ℕ}
    {message : List Bytes} (hl : Fits l) (ho : Offers stdin lines)
    (hd : Drains tail false stdin (afterRun (l :: lines))) (hfuel : lines.length + 1 ≤ fuel) :
    Gathers tail false (l :: lines) message
      (gather false (fuel + 1) (some (l ++ [newline])) message stdin) := by
  show ∃ stdin', _ = some (Gathered.message (message ++ (l :: lines).takeWhile fun l => l ≠ [])
      stdin') ∧
    Offers stdin' (afterRun (l :: lines)) ∧ Drains tail false stdin' (afterRun (l :: lines))
  induction lines generalizing l stdin fuel message with
  | nil =>
    by_cases hne : l = []
    · subst hne
      rw [Lib.Lines.afterRun_cons, if_pos rfl] at hd ⊢
      exact ⟨stdin, by rw [gather_empty]; simp, ho, hd⟩
    · -- the stream ends with this line
      obtain ⟨fuel, rfl⟩ : ∃ n, fuel = n + 1 := Nat.exists_eq_add_of_le' hfuel
      obtain ⟨hend, heof⟩ := fgets_end ho
      rw [Lib.Lines.afterRun_cons, if_neg hne] at hd ⊢
      refine ⟨{}, ?_, ⟨rfl, nofun, nofun⟩, ?_⟩
      · rw [gather_part hl hne, if_neg Bool.false_ne_true, heof]
        simp [gather, hne]
      · rcases hd with ⟨hsome, -⟩ | ⟨-, hls⟩
        · exact absurd hend hsome
        · exact Or.inr ⟨rfl, hls⟩
  | cons l' lines ih =>
    by_cases hne : l = []
    · subst hne
      rw [Lib.Lines.afterRun_cons, if_pos rfl] at hd ⊢
      exact ⟨stdin, by rw [gather_empty]; simp, ho, hd⟩
    · obtain ⟨fuel, rfl⟩ : ∃ n, fuel = n + 1 := ⟨fuel - 1, by omega⟩
      obtain ⟨stdin', hline, ho', hend, hsome⟩ := fgets_line ho
      rw [Lib.Lines.afterRun_cons, if_neg hne] at hd ⊢
      have hd' := hd.next hend hsome ho.fits rfl
      obtain ⟨stdin'', hgather, hrest⟩ :=
        @ih l' stdin' fuel (message ++ [l]) (ho.fits l' List.mem_cons_self) ho' hd'
          (Nat.le_of_succ_le_succ hfuel)
      refine ⟨stdin'', ?_, hrest⟩
      rw [gather_part hl hne, if_neg Bool.false_ne_true, hline]
      dsimp only
      rw [hgather]
      simp [hne]

/-- **The message of an iteration.** -/
theorem gather_message {tail : Bytes} {singlepart : Bool} {lines : List Bytes} {l : Bytes}
    {stdin : Stdin} (hl : Fits l) (ho : Offers stdin lines)
    (hd : Drains tail singlepart stdin (linesAfter singlepart (l :: lines))) :
    Gathers tail singlepart (l :: lines) []
      (gather singlepart (stdin.content.length + 2) (some (l ++ [newline])) [] stdin) := by
  cases singlepart with
  | false =>
    have hfuel := Lib.Lines.length_le_unlines newline lines
    rw [← ho.content] at hfuel
    exact gather_runs hl ho hd (Nat.succ_le_succ hfuel)
  | true =>
    refine ⟨stdin, ?_, ho, hd⟩
    by_cases hne : l = []
    · subst hne
      rw [gather_empty]
      rfl
    · rw [gather_part hl hne, if_pos rfl]
      simp [firstMessage, hne]

end Client
end Zmqpp
