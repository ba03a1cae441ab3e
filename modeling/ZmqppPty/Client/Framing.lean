import ZmqppPty.Client.Input

/-!
# Framing of the input of the command line client (client/main.cpp)

The block under `poller.has_input(standardin)` is executed until the stream is at its end.  `fgets`
cuts the stream into pieces and the loop drops the last character of each, which is the newline of
a line that is ended and holds no NUL.

* `inputLoop`            the messages that the block builds, one execution after the other;
* `cut`                  the part that a piece becomes;
* `fgetsLoop_piece`      what `fgets` returns is the next piece of the stream;
* `inputLoop_pieces`     the messages are the pieces, cut;
* `inputLoop_unlines`    the messages of lines that `fgets` returns in one piece;
* `frames_input_iff`     the streams whose lines are framed as described.
-/

namespace Zmqpp
namespace Client

open Lib.Lines (unlines afterRun)

/-! ## until the end of input -/

inductive Framed where
  | messages (ms : List (List Bytes))
  /-- an index out of the buffer is written -/
  | overrun
deriving DecidableEq

/-- a message is put before those that follow, unless it has no parts -/
def Framed.build (message : List Bytes) : Framed → Framed
  | .messages ms => .messages (if message = [] then ms else message :: ms)
  | .overrun => .overrun

/-- the block, until `fgets` finds nothing more; `none` if `fuel` is too small -/
def inputLoop (singlepart : Bool) : ℕ → Stdin → Option Framed
  | 0, _ => none
  | fuel + 1, stdin =>
    match fgets bufferSize stdin with
    | (none, _) => some (.messages [])
    | (some line, stdin) =>
      match gather singlepart (stdin.content.length + 2) (some line) [] stdin with
      | none => none
      | some .overrun => some .overrun
      | some (.message message stdin) => (inputLoop singlepart fuel stdin).map (.build message)

/-- `length`, a `size_t`: the index of the buffer that is written -/
def lengthOf (line : Bytes) : ℕ := (strlen (line ++ [0]) + (2 ^ 64 - 1)) % 2 ^ 64

/-- each line is a part, without its newline, and the messages are those of the lines -/
def FramesInput (singlepart : Bool) (stdin : Stdin) : Prop :=
  inputLoop singlepart (stdin.content.length + 1) stdin
    = some (.messages (messagesOf singlepart (stdin.content.splitOn newline)))

instance (singlepart : Bool) (stdin : Stdin) : Decidable (FramesInput singlepart stdin) :=
  inferInstanceAs (Decidable (_ = _))

/-- all lines are ended, hold no NUL and are returned in one piece -/
structure Terminated (text : Bytes) : Prop where
  nul : (0 : UInt8) ∉ text
  ends : text = [] ∨ text.getLast? = some newline
  length : ∀ l ∈ text.splitOn newline, l.length + 1 < bufferSize

/-! ## pieces of the stream -/

/-- what `fgets` returns -/
structure Piece (line : Bytes) : Prop where
  nonempty : line ≠ []
  length : line.length < bufferSize
  /-- no newline but at the end -/
  unbroken : newline ∉ line.dropLast

theorem not_mem_dropLast {line buffer : Bytes} (hline : newline ∉ line)
    (hbuffer : newline ∉ buffer) : newline ∉ (line ++ buffer).dropLast := by
  intro hmem
  exact (List.mem_append.mp (List.mem_of_mem_dropLast hmem)).elim hline hbuffer

/-- `line` and the next piece of the stream -/
theorem fgetsLoop_piece {deliveries : List Bytes} {room : ℕ} {line buffer out : Bytes}
    {stdin : Stdin} (hroom : 0 < room) (hline : newline ∉ line)
    (h : fgetsLoop room line buffer deliveries = (some out, stdin)) :
    line ++ (buffer ++ deliveries.flatten) = out ++ stdin.content ∧ out ≠ [] ∧
      out.length ≤ line.length + room ∧ newline ∉ out.dropLast := by
  fun_induction fgetsLoop room line buffer deliveries with
  | case1 deliveries room line buffer front rest hfirst =>
    -- a newline is found
    obtain ⟨hout, hstdin⟩ := Prod.mk.inj h
    obtain rfl := Option.some.inj hout
    obtain ⟨hbuffer, hfront, hlength⟩ := Lib.Lines.firstLine_take hfirst
    have hdrop : buffer.drop (front.length + 1) = rest ++ buffer.drop room := by
      conv_lhs => rw [hbuffer, List.drop_length_add_append]
      rfl
    rw [← hstdin, hdrop]
    refine ⟨?_, List.append_ne_nil_of_right_ne_nil _ (List.cons_ne_nil _ _), ?_, ?_⟩
    · conv_lhs => rw [hbuffer]
      simp [Stdin.content]
    · rw [List.length_append, List.length_append, List.length_singleton]
      omega
    · rw [List.dropLast_concat, List.mem_append, not_or]
      exact ⟨hline, hfront⟩
  | case2 deliveries room line buffer hfirst hfull =>
    -- the buffer is full
    obtain ⟨hout, hstdin⟩ := Prod.mk.inj h
    obtain rfl := Option.some.inj hout
    have htake := Lib.Lines.not_mem_of_firstLine hfirst
    have hlength := List.length_take_of_le hfull
    rw [← hstdin]
    refine ⟨?_, ?_, ?_, not_mem_dropLast hline htake⟩
    · show _ = line ++ buffer.take room ++ (buffer.drop room ++ deliveries.flatten)
      rw [List.append_assoc, ← List.append_assoc (buffer.take room), List.take_append_drop]
    · intro hnil
      rw [(List.append_eq_nil_iff.mp hnil).2] at hlength
      exact absurd hlength hroom.ne
    · rw [List.length_append, hlength]
  | case3 room line buffer hfirst hlong =>
    -- the end of the stream
    have hbuffer := Lib.Lines.not_mem_of_firstLine_take (Nat.le_of_not_le hlong) hfirst
    obtain ⟨hout, hstdin⟩ := Prod.mk.inj h
    split at hout
    · cases hout
    · rename_i hne
      obtain rfl := Option.some.inj hout
      rw [← hstdin]
      refine ⟨?_, hne, ?_, not_mem_dropLast hline hbuffer⟩
      · simp [Stdin.content]
      · rw [List.length_append]
        omega
  | case4 room line buffer hfirst hlong d deliveries ih =>
    have hbuffer := Lib.Lines.not_mem_of_firstLine_take (Nat.le_of_not_le hlong) hfirst
    have hnew : newline ∉ line ++ buffer := by
      rw [List.mem_append, not_or]
      exact ⟨hline, hbuffer⟩
    obtain ⟨hsplit, hne, hlength, hlast⟩ := ih (by omega) hnew h
    refine ⟨?_, hne, ?_, hlast⟩
    · rw [List.flatten_cons, ← hsplit, List.append_assoc]
    · rw [List.length_append] at hlength
      omega

/-- `fgets` finds nothing only at the end -/
theorem fgetsLoop_none {deliveries : List Bytes} {room : ℕ} {line buffer : Bytes} {stdin : Stdin}
    (h : fgetsLoop room line buffer deliveries = (none, stdin)) :
    line ++ (buffer ++ deliveries.flatten) = [] ∧ stdin = {} := by
  fun_induction fgetsLoop room line buffer deliveries with
  | case1 deliveries room line buffer front rest hfirst => cases (Prod.mk.inj h).1
  | case2 deliveries room line buffer hfirst hfull => cases (Prod.mk.inj h).1
  | case3 room line buffer hfirst hlong =>
    obtain ⟨hout, hstdin⟩ := Prod.mk.inj h
    split at hout
    · rename_i hnil
      refine ⟨?_, hstdin.symm⟩
      rw [List.flatten_nil, List.append_nil, hnil]
    · cases hout
  | case4 room line buffer hfirst hlong d deliveries ih =>
    obtain ⟨hnil, hstdin⟩ := ih h
    refine ⟨?_, hstdin⟩
    rw [List.flatten_cons, ← List.append_assoc, hnil]

/-- **The next piece**, if there is one. -/
theorem fgets_piece {stdin stdin' : Stdin} {result : Option Bytes}
    (h : fgets bufferSize stdin = (result, stdin')) :
    (∀ line ∈ result.toList, Piece line) ∧
      stdin.content = result.toList.flatten ++ stdin'.content := by
  cases result with
  | none =>
    obtain ⟨hnil, rfl⟩ :=
      @fgetsLoop_none stdin.deliveries (bufferSize - 1) [] stdin.buffer stdin' h
    exact ⟨nofun, hnil⟩
  | some line =>
    obtain ⟨hsplit, hne, hlength, hlast⟩ :=
      @fgetsLoop_piece stdin.deliveries (bufferSize - 1) [] stdin.buffer line stdin' (by decide)
        List.not_mem_nil h
    have hroom : bufferSize - 1 < bufferSize := by decide
    rw [List.length_nil] at hlength
    refine ⟨?_, ?_⟩
    · intro line' hline
      obtain rfl := List.mem_singleton.mp hline
      exact ⟨hne, by omega, hlast⟩
    · show _ = (line ++ []) ++ _
      rw [List.append_nil]
      exact hsplit

theorem fgets_length {stdin stdin' : Stdin} {result : Option Bytes}
    (h : fgets bufferSize stdin = (result, stdin')) :
    stdin'.content.length + result.toList.length ≤ stdin.content.length := by
  obtain ⟨hpiece, hsplit⟩ := fgets_piece h
  rw [hsplit, List.length_append, Nat.add_comm]
  refine Nat.add_le_add_right ?_ _
  cases result with
  | none => exact Nat.le_refl _
  | some line =>
    show 1 ≤ (line ++ []).length
    rw [List.append_nil]
    exact List.length_pos_iff.mpr (hpiece line (List.mem_singleton.mpr rfl)).nonempty

/-! ## what becomes of the pieces -/

/-- the part: what is before the first NUL, without its last character -/
def cut (line : Bytes) : Bytes := line.take (strlen (line ++ [0]) - 1)

/-- **The parts of a message are the pieces it takes, cut.** -/
theorem gather_pieces {singlepart : Bool} {fuel : ℕ} {result : Option Bytes}
    {message parts : List Bytes} {stdin stdin' : Stdin}
    (h : gather singlepart fuel result message stdin = some (.message parts stdin')) :
    ∃ pieces : List Bytes, (∀ p ∈ pieces, Piece p) ∧
      stdin.content = pieces.flatten ++ stdin'.content ∧
      parts.flatten = message.flatten ++ ((result.toList ++ pieces).map cut).flatten := by
  induction fuel generalizing result message stdin with
  | zero => cases h
  | succ fuel ih =>
    cases result with
    | none =>
      obtain ⟨rfl, rfl⟩ := Gathered.message.inj (Option.some.inj h)
      exact ⟨[], nofun, rfl, (List.append_nil _).symm⟩
    | some line =>
      rw [gather] at h
      dsimp only at h
      split at h
      · cases h
      · split at h
        · -- an empty line ends the message
          rename_i hlen
          obtain ⟨rfl, rfl⟩ := Gathered.message.inj (Option.some.inj h)
          have hcut : cut line = [] := by
            unfold cut
            rw [hlen, List.take_zero]
          refine ⟨[], nofun, rfl, ?_⟩
          simp [hcut]
        · split at h
          · obtain ⟨rfl, rfl⟩ := Gathered.message.inj (Option.some.inj h)
            refine ⟨[], nofun, rfl, ?_⟩
            simp [cut]
          · rcases hnext : fgets bufferSize stdin with ⟨next, stdin''⟩
            rw [hnext] at h
            obtain ⟨hpiece, hsplit⟩ := fgets_piece hnext
            obtain ⟨pieces, hpieces, hrest, hparts⟩ := ih h
            refine ⟨next.toList ++ pieces, ?_, ?_, ?_⟩
            · intro p hp
              exact (List.mem_append.mp hp).elim (hpiece p) (hpieces p)
            · rw [hsplit, hrest, List.flatten_append, List.append_assoc]
            · rw [hparts]
              simp [cut]

/-- the loop ends: each call of `fgets` takes a character at least -/
theorem gather_ne_none {singlepart : Bool} {fuel : ℕ} {result : Option Bytes}
    {message : List Bytes} {stdin : Stdin}
    (hfuel : stdin.content.length + result.toList.length < fuel) :
    gather singlepart fuel result message stdin ≠ none := by
  induction fuel generalizing result message stdin with
  | zero => exact absurd hfuel (Nat.not_lt_zero _)
  | succ fuel ih =>
    cases result with
    | none => exact Option.some_ne_none _
    | some line =>
      rw [gather]
      dsimp only
      split
      · exact Option.some_ne_none _
      · split
        · exact Option.some_ne_none _
        · split
          · exact Option.some_ne_none _
          · rcases hnext : fgets bufferSize stdin with ⟨next, stdin''⟩
            have hlength := fgets_length hnext
            change stdin.content.length + 1 < fuel + 1 at hfuel
            apply ih
            dsimp only
            omega

theorem Framed.of_build {message : List Bytes} {framed : Framed} {ms : List (List Bytes)}
    (h : framed.build message = .messages ms) :
    ∃ ms', framed = .messages ms' ∧ ms.flatten = message ++ ms'.flatten := by
  cases framed with
  | overrun => cases h
  | messages ms' =>
    obtain rfl := Framed.messages.inj h
    refine ⟨ms', rfl, ?_⟩
    split
    · rename_i hnil
      rw [hnil]
      rfl
    · rfl

/-- **The parts of all messages are the pieces of the stream, cut.** -/
theorem inputLoop_pieces {singlepart : Bool} {fuel : ℕ} {stdin : Stdin} {ms : List (List Bytes)}
    (h : inputLoop singlepart fuel stdin = some (.messages ms)) :
    ∃ pieces : List Bytes, (∀ p ∈ pieces, Piece p) ∧ stdin.content = pieces.flatten ∧
      ms.flatten.flatten = (pieces.map cut).flatten := by
  induction fuel generalizing stdin ms with
  | zero => cases h
  | succ fuel ih =>
    rw [inputLoop] at h
    rcases hline : fgets bufferSize stdin with ⟨result, stdin'⟩
    rw [hline] at h
    obtain ⟨hpiece, hsplit⟩ := fgets_piece hline
    cases result with
    | none =>
      obtain rfl := Framed.messages.inj (Option.some.inj h)
      obtain ⟨-, rfl⟩ := @fgetsLoop_none stdin.deliveries (bufferSize - 1) [] stdin.buffer stdin'
        hline
      exact ⟨[], nofun, hsplit, rfl⟩
    | some line =>
      dsimp only at h
      split at h
      · cases h
      · cases h
      · rename_i message stdin'' hgather
        obtain ⟨framed, hframed, hbuild⟩ := Option.map_eq_some_iff.mp h
        obtain ⟨ms', rfl, hms⟩ := Framed.of_build hbuild
        obtain ⟨taken, htaken, hcontent, hparts⟩ := gather_pieces hgather
        obtain ⟨pieces, hpieces, hrest, hcut⟩ := ih hframed
        refine ⟨line :: (taken ++ pieces), ?_, ?_, ?_⟩
        · intro p hp
          rcases List.mem_cons.mp hp with rfl | hp
          · exact hpiece p (List.mem_singleton.mpr rfl)
          · exact (List.mem_append.mp hp).elim (htaken p) (hpieces p)
        · rw [hsplit, hcontent, hrest]
          simp
        · rw [hms, List.flatten_append, hparts, hcut]
          simp

/-! ## what is lost -/

/-- the characters of the lines of a text -/
def inLines (text : Bytes) : Bytes := text.filter fun c => c ≠ newline

theorem inLines_append (a b : Bytes) : inLines (a ++ b) = inLines a ++ inLines b :=
  List.filter_append ..

theorem inLines_of_not_mem {l : Bytes} (h : newline ∉ l) : inLines l = l := by
  refine List.filter_eq_self.mpr fun c hc => decide_eq_true ?_
  intro heq
  exact h (heq ▸ hc)

theorem strlen_lt {s : Bytes} (h : (0 : UInt8) ∈ s) : strlen (s ++ [0]) < s.length := by
  obtain ⟨a, b, rfl, ha⟩ := List.eq_append_cons_of_mem h
  have hlen : strlen (a ++ 0 :: b ++ [0]) = a.length := by
    unfold strlen
    rw [List.append_assoc, List.cons_append, (Lib.Lines.span_ne ha _).1]
  rw [hlen, List.length_append, List.length_cons]
  omega

theorem strlen_le (s : Bytes) : strlen (s ++ [0]) ≤ s.length := by
  by_cases hs : (0 : UInt8) ∈ s
  · exact (strlen_lt hs).le
  · exact (Message.strlen_memory ⟨s, hs⟩).le

/-- a part is not longer than the piece's line; if it is as long, the piece is that line and its
newline -/
theorem Piece.cut_length {line : Bytes} (h : Piece line) :
    (cut line).length ≤ (inLines line).length ∧
      ((cut line).length = (inLines line).length → ∃ l, Fits l ∧ line = l ++ [newline]) := by
  have hle := strlen_le line
  have hcut : (cut line).length = strlen (line ++ [0]) - 1 :=
    List.length_take_of_le (Nat.le_trans (Nat.sub_le _ 1) hle)
  rcases List.eq_nil_or_concat' line with hnil | ⟨l, c, rfl⟩
  · exact absurd hnil h.nonempty
  have hl : newline ∉ l := by
    have hlast := h.unbroken
    rw [List.dropLast_concat] at hlast
    exact hlast
  have hlen : (l ++ [c]).length = l.length + 1 := List.length_append
  rw [hcut, inLines_append, inLines_of_not_mem hl]
  rw [hlen] at hle
  by_cases hc : c = newline
  · subst hc
    have hin : l ++ inLines [newline] = l := List.append_nil l
    rw [hin]
    refine ⟨by omega, fun heq => ⟨l, ⟨hl, ?_, ?_⟩, rfl⟩⟩
    · intro hnul
      have hpos := List.length_pos_of_mem hnul
      have hlt := strlen_lt (List.mem_append_left [newline] hnul)
      rw [hlen] at hlt
      omega
    · have hfits := h.length
      rw [hlen] at hfits
      exact hfits
  · -- no newline: the last character is lost
    have hin : inLines [c] = [c] := inLines_of_not_mem fun h => hc (List.mem_singleton.mp h).symm
    rw [hin, hlen]
    exact ⟨by omega, fun heq => by omega⟩

/-- **If nothing is lost, the pieces are lines**, each with its newline. -/
theorem lines_of_cut {pieces : List Bytes} (h : ∀ p ∈ pieces, Piece p) :
    (pieces.map cut).flatten.length ≤ (inLines pieces.flatten).length ∧
      ((pieces.map cut).flatten.length = (inLines pieces.flatten).length →
        ∃ lines, (∀ l ∈ lines, Fits l) ∧ pieces.flatten = unlines newline lines) := by
  induction pieces with
  | nil => exact ⟨Nat.le_refl _, fun _ => ⟨[], nofun, rfl⟩⟩
  | cons p pieces ih =>
    obtain ⟨hle, hlines⟩ := ih fun p' hp' => h p' (List.mem_cons_of_mem p hp')
    obtain ⟨hle', hline⟩ := (h p List.mem_cons_self).cut_length
    rw [List.map_cons, List.flatten_cons, List.flatten_cons, inLines_append, List.length_append,
      List.length_append]
    refine ⟨Nat.add_le_add hle' hle, ?_⟩
    intro heq
    obtain ⟨l, hl, rfl⟩ := hline (by omega)
    obtain ⟨lines, hfits, hrest⟩ := hlines (by omega)
    refine ⟨l :: lines, ?_, ?_⟩
    · intro l' hl'
      rcases List.mem_cons.mp hl' with rfl | hl'
      · exact hl
      · exact hfits l' hl'
    · rw [hrest, Lib.Lines.unlines_cons, List.append_assoc]
      rfl

theorem messagesOf_flatten (singlepart : Bool) (lines : List Bytes) :
    (messagesOf singlepart lines).flatten.flatten = lines.flatten := by
  cases singlepart with
  | false =>
    show (Lib.Lines.runs lines).flatten.flatten = _
    rw [Lib.Lines.flatten_runs, List.flatten_filter_ne_nil]
  | true =>
    show ((lines.filter fun l => l ≠ []).map fun l => [l]).flatten.flatten = _
    rw [← List.flatMap_def, List.flatMap_singleton', List.flatten_filter_ne_nil]

/-- the streams that are framed as described are made of such lines -/
theorem lines_of_frames {singlepart : Bool} {stdin : Stdin} (h : FramesInput singlepart stdin) :
    ∃ lines, (∀ l ∈ lines, Fits l) ∧ stdin.content = unlines newline lines := by
  obtain ⟨pieces, hpieces, hcontent, hcut⟩ := inputLoop_pieces h
  rw [messagesOf_flatten, Lib.Lines.flatten_splitOn] at hcut
  rw [hcontent] at hcut ⊢
  exact (lines_of_cut hpieces).2 (congrArg List.length hcut.symm)

theorem terminated_iff {text : Bytes} :
    Terminated text ↔ ∃ lines, (∀ l ∈ lines, Fits l) ∧ text = unlines newline lines := by
  constructor
  · intro h
    rcases List.eq_nil_or_concat' text with rfl | ⟨text, c, rfl⟩
    · exact ⟨[], nofun, rfl⟩
    obtain rfl : c = newline := by
      rcases h.ends with hnil | hlast
      · exact absurd hnil (List.append_ne_nil_of_right_ne_nil _ (List.cons_ne_nil _ _))
      · rw [List.getLast?_concat] at hlast
        exact Option.some.inj hlast
    refine ⟨text.splitOn newline, ?_, (Lib.Lines.unlines_splitOn newline text).symm⟩
    intro l hl
    have hmem : ∀ a ∈ l, a ∈ text ∧ a ≠ newline := by
      intro a ha
      have hflat := List.mem_flatten_of_mem hl ha
      rw [Lib.Lines.flatten_splitOn] at hflat
      obtain ⟨htext, hne⟩ := List.mem_filter.mp hflat
      exact ⟨htext, of_decide_eq_true hne⟩
    refine ⟨fun hnl => (hmem _ hnl).2 rfl, ?_, h.length l ?_⟩
    · exact fun hnul => h.nul (List.mem_append_left _ (hmem _ hnul).1)
    · rw [List.splitOn_append_cons_self]
      exact List.mem_append_left _ hl
  · rintro ⟨lines, hfits, rfl⟩
    refine ⟨?_, ?_, ?_⟩
    · intro hnul
      obtain ⟨l, hl, hmem⟩ := List.mem_flatMap.mp hnul
      rcases List.mem_append.mp hmem with hmem | hmem
      · exact (hfits l hl).nul hmem
      · exact absurd (List.mem_singleton.mp hmem) (by decide)
    · rcases List.eq_nil_or_concat' lines with rfl | ⟨lines, l, rfl⟩
      · exact Or.inl rfl
      · refine Or.inr ?_
        simp [unlines]
    · intro l hl
      rw [Lib.Lines.splitOn_unlines fun l hl => (hfits l hl).newline] at hl
      rcases List.mem_append.mp hl with hl | hl
      · exact (hfits l hl).length
      · rw [List.mem_singleton.mp hl]
        decide

/-! ## what is framed -/

theorem messagesOf_append_nil (singlepart : Bool) (lines : List Bytes) :
    messagesOf singlepart (lines ++ [[]]) = messagesOf singlepart lines := by
  cases singlepart with
  | false => exact Lib.Lines.runs_append_nil lines
  | true => simp [messagesOf]

/-- **The next line of such a stream.** -/
theorem fgets_unlines {stdin : Stdin} {l : Bytes} {lines : List Bytes} (hl : Fits l)
    (hc : stdin.content = unlines newline (l :: lines)) :
    ∃ stdin', fgets bufferSize stdin = (some (l ++ [newline]), stdin') ∧
      stdin'.content = unlines newline lines := by
  have hroom : l.length < bufferSize - 1 := by
    have := hl.length
    omega
  rw [Lib.Lines.unlines_cons] at hc
  obtain ⟨pre, buffer', post, -, hloop, -⟩ :=
    @fgetsLoop_line stdin.deliveries (bufferSize - 1) [] stdin.buffer l _ hl.newline hroom hc
  have hline : fgets bufferSize stdin = (some (l ++ [newline]), ⟨buffer', post⟩) := hloop
  refine ⟨_, hline, ?_⟩
  obtain ⟨-, hsplit⟩ := fgets_piece hline
  have hcontent : stdin.content = (l ++ [newline]) ++ [] ++ Stdin.content ⟨buffer', post⟩ := hsplit
  rw [hc, List.append_nil, List.append_assoc] at hcontent
  exact (List.cons.inj (List.append_cancel_left hcontent)).2.symm

/-- the end of the stream -/
theorem fgets_nil {stdin : Stdin} (hc : stdin.content = []) :
    ∃ stdin', fgets bufferSize stdin = (none, stdin') ∧ stdin'.content = [] := by
  rcases hline : fgets bufferSize stdin with ⟨result, stdin'⟩
  obtain ⟨hpiece, hsplit⟩ := fgets_piece hline
  rw [hc] at hsplit
  obtain ⟨hresult, hcontent⟩ := List.append_eq_nil_iff.mp hsplit.symm
  cases result with
  | none => exact ⟨stdin', rfl, hcontent⟩
  | some line =>
    rw [Option.toList_some, List.flatten_singleton] at hresult
    exact absurd hresult (hpiece line (List.mem_singleton.mpr rfl)).nonempty

/-- a line that ends the loop -/
theorem gather_first {singlepart : Bool} {l : Bytes} (hl : Fits l) (h : l = [] ∨ singlepart = true)
    (lines : List Bytes) (fuel : ℕ) (message : List Bytes) (stdin : Stdin) :
    gather singlepart (fuel + 1) (some (l ++ [newline])) message stdin
        = some (.message (message ++ firstMessage singlepart (l :: lines)) stdin) ∧
      linesAfter singlepart (l :: lines) = lines := by
  by_cases hne : l = []
  · subst hne
    rw [gather_empty, firstMessage_empty, linesAfter_empty, List.append_nil]
    exact ⟨rfl, rfl⟩
  · obtain rfl := h.resolve_left hne
    rw [gather_part hl hne]
    exact ⟨by simp [firstMessage, hne], rfl⟩

/-- **The message of the first lines.** -/
theorem gather_unlines {singlepart : Bool} {lines : List Bytes} {l : Bytes} {stdin : Stdin}
    {fuel : ℕ} {message : List Bytes} (hl : Fits l) (hfits : ∀ l ∈ lines, Fits l)
    (hc : stdin.content = unlines newline lines) (hfuel : lines.length + 1 ≤ fuel) :
    ∃ stdin', gather singlepart (fuel + 1) (some (l ++ [newline])) message stdin
        = some (.message (message ++ firstMessage singlepart (l :: lines)) stdin') ∧
      stdin'.content = unlines newline (linesAfter singlepart (l :: lines)) := by
  induction lines generalizing l stdin fuel message with
  | nil =>
    by_cases hfirst : l = [] ∨ singlepart = true
    · obtain ⟨hgather, hafter⟩ := gather_first hl hfirst [] fuel message stdin
      exact ⟨stdin, hgather, by rw [hafter, hc]⟩
    · -- the stream ends with this line
      obtain ⟨hne, hsingle⟩ := not_or.mp hfirst
      obtain rfl := Bool.eq_false_of_not_eq_true hsingle
      obtain ⟨fuel, rfl⟩ : ∃ n, fuel = n + 1 := Nat.exists_eq_add_of_le' hfuel
      obtain ⟨stdin', heof, hcontent⟩ := fgets_nil hc
      rw [gather_part hl hne, if_neg Bool.false_ne_true, heof]
      refine ⟨stdin', ?_, ?_⟩
      · simp [gather, firstMessage, hne]
      · rw [hcontent]
        simp [linesAfter, afterRun, hne, unlines]
  | cons l' lines ih =>
    by_cases hfirst : l = [] ∨ singlepart = true
    · obtain ⟨hgather, hafter⟩ := gather_first hl hfirst (l' :: lines) fuel message stdin
      exact ⟨stdin, hgather, by rw [hafter, hc]⟩
    · obtain ⟨hne, hsingle⟩ := not_or.mp hfirst
      obtain rfl := Bool.eq_false_of_not_eq_true hsingle
      obtain ⟨fuel, rfl⟩ : ∃ n, fuel = n + 1 := ⟨fuel - 1, by omega⟩
      have hl' := hfits l' List.mem_cons_self
      obtain ⟨stdin', hline, hcontent⟩ := fgets_unlines hl' hc
      obtain ⟨stdin'', hgather, hrest⟩ :=
        @ih l' stdin' fuel (message ++ [l]) hl' (fun l hl => hfits l (List.mem_cons_of_mem l' hl))
          hcontent (Nat.le_of_succ_le_succ hfuel)
      rw [gather_part hl hne, if_neg Bool.false_ne_true, hline]
      refine ⟨stdin'', ?_, ?_⟩
      · dsimp only
        rw [hgather]
        simp [firstMessage, hne]
      · have hafter : afterRun (l :: l' :: lines) = afterRun (l' :: lines) := by
          rw [Lib.Lines.afterRun_cons, if_neg hne]
        show _ = unlines newline (afterRun (l :: l' :: lines))
        rw [hrest, hafter]
        rfl

/-- **The messages of lines that `fgets` returns in one piece.** -/
theorem inputLoop_unlines {singlepart : Bool} {lines : List Bytes} {stdin : Stdin} {fuel : ℕ}
    (hfits : ∀ l ∈ lines, Fits l) (hc : stdin.content = unlines newline lines)
    (hfuel : lines.length < fuel) :
    inputLoop singlepart fuel stdin = some (.messages (messagesOf singlepart lines)) := by
  induction fuel generalizing lines stdin with
  | zero => exact absurd hfuel (Nat.not_lt_zero _)
  | succ fuel ih =>
    cases lines with
    | nil =>
      obtain ⟨stdin', heof, -⟩ := fgets_nil hc
      rw [inputLoop, heof, messagesOf_eq_nil.mpr fun _ h => absurd h List.not_mem_nil]
    | cons l lines =>
      have hl := hfits l List.mem_cons_self
      have hrest : ∀ l ∈ lines, Fits l := fun l' hl' => hfits l' (List.mem_cons_of_mem l hl')
      obtain ⟨stdin', hline, hcontent⟩ := fgets_unlines hl hc
      have henough := Lib.Lines.length_le_unlines newline lines
      rw [← hcontent] at henough
      obtain ⟨stdin'', hgather, hafter⟩ :=
        @gather_unlines singlepart lines l stdin' (stdin'.content.length + 1) [] hl hrest hcontent
          (Nat.succ_le_succ henough)
      have hshort := linesAfter_length singlepart l lines
      have hsub : ∀ l' ∈ linesAfter singlepart (l :: lines), Fits l' := by
        intro l' hl'
        exact hfits l' ((linesAfter_sublist singlepart (l :: lines)).subset hl')
      have hloop := ih hsub hafter (Nat.lt_of_le_of_lt hshort (Nat.lt_of_succ_lt_succ hfuel))
      rw [inputLoop, hline]
      dsimp only
      rw [hgather]
      dsimp only
      rw [hloop, messagesOf_eq singlepart (l :: lines), List.nil_append]
      show some (Framed.messages _) = _
      congr 2
      split
      · rfl
      · rfl

/-- the loop ends -/
theorem inputLoop_ne_none {singlepart : Bool} {fuel : ℕ} {stdin : Stdin}
    (hfuel : stdin.content.length < fuel) : inputLoop singlepart fuel stdin ≠ none := by
  induction fuel generalizing stdin with
  | zero => exact absurd hfuel (Nat.not_lt_zero _)
  | succ fuel ih =>
    rw [inputLoop]
    rcases hline : fgets bufferSize stdin with ⟨result, stdin'⟩
    have hlength := fgets_length hline
    cases result with
    | none => exact Option.some_ne_none _
    | some line =>
      have hgather : gather singlepart (stdin'.content.length + 2) (some line) [] stdin' ≠ none :=
        gather_ne_none (Nat.lt_succ_self _)
      dsimp only
      split
      · rename_i hnone
        exact absurd hnone hgather
      · exact Option.some_ne_none _
      · rename_i message stdin'' hmessage
        obtain ⟨taken, -, hcontent, -⟩ := gather_pieces hmessage
        have hrest := congrArg List.length hcontent
        rw [List.length_append] at hrest
        change stdin'.content.length + 1 ≤ stdin.content.length at hlength
        intro hnone
        exact ih (by omega) (Option.map_eq_none_iff.mp hnone)

/-- `strlen` is never more than `fgets` stores, so only a piece that starts with a NUL leads out of
the buffer -/
theorem lengthOf_lt {line : Bytes} (h : Piece line) :
    lengthOf line < bufferSize ↔ strlen (line ++ [0]) ≠ 0 := by
  have hle := strlen_le line
  have hlength := h.length
  have hsize : bufferSize = 1048576 := rfl
  unfold lengthOf
  omega

/-- **The input is framed as described iff all lines are ended, hold no NUL and take, with the
newline, less than the buffer.**  The loop always ends, and it writes out of the buffer iff a piece
starts with a NUL. -/
theorem frames_input_iff (singlepart : Bool) (stdin : Stdin) :
    inputLoop singlepart (stdin.content.length + 1) stdin ≠ none ∧
      (∀ line, (fgets bufferSize stdin).1 = some line →
        (lengthOf line < bufferSize ↔ strlen (line ++ [0]) ≠ 0)) ∧
      (FramesInput singlepart stdin ↔ Terminated stdin.content) := by
  refine ⟨inputLoop_ne_none (Nat.lt_succ_self _), ?_, ?_⟩
  · intro line hline
    have hpair : fgets bufferSize stdin = (some line, (fgets bufferSize stdin).2) :=
      Prod.ext hline rfl
    exact lengthOf_lt ((fgets_piece hpair).1 line (List.mem_singleton.mpr rfl))
  · rw [terminated_iff]
    constructor
    · exact lines_of_frames
    · rintro ⟨lines, hfits, hc⟩
      have hmessages := messagesOf_append_nil singlepart lines
      have henough := Lib.Lines.length_le_unlines newline lines
      rw [← hc] at henough
      unfold FramesInput
      rw [inputLoop_unlines hfits hc (Nat.lt_succ_of_le henough), hc,
        Lib.Lines.splitOn_unlines fun l hl => (hfits l hl).newline, hmessages]

theorem frames_input_two :
    (∀ line, (fgets bufferSize ⟨[], [[97, 10, 10, 98], [10]]⟩).1 = some line →
        (lengthOf line < bufferSize ↔ strlen (line ++ [0]) ≠ 0)) ∧
      FramesInput false ⟨[], [[97, 10, 10, 98], [10]]⟩ := by
  obtain ⟨-, hindex, hframes⟩ := frames_input_iff false ⟨[], [[97, 10, 10, 98], [10]]⟩
  exact ⟨hindex, hframes.mpr ⟨by decide, by decide, by decide⟩⟩

/-- the last character of a line that is not ended is lost, and a NUL at the beginning of a line
leads out of the buffer -/
theorem input_not_framed :
    (∀ l ∈ (Stdin.content ⟨[], [[97, 98]]⟩).splitOn newline, l.length < bufferSize) ∧
      inputLoop true 3 ⟨[], [[97, 98]]⟩ = some (.messages [[[97]]]) ∧
      ¬ FramesInput true ⟨[], [[97, 98]]⟩ ∧
      inputLoop true 3 ⟨[], [[0, 10]]⟩ = some .overrun ∧
      ¬ FramesInput true ⟨[], [[0, 10]]⟩ := by
  decide

end Client
end Zmqpp
