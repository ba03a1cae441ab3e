import ZmqppPty.Client.Framing

/-!
# What the command line client prints (client/main.cpp)

A message that is received is printed line by line, and so is, if the client is verbose, one that
is made of the input.  An annotated client marks the lines.

* `Shown`, `console`, `printout`   the messages that are printed, and the text they become;
* `runs_blocks`                    the lines between empty lines;
* `printout_reads_back_iff`        the text that a client prints is, as the input of a client, the
                                   same messages iff all parts are lines that `fgets` returns;
* `Shown.Marked`                   what an annotated client prints a line for at least;
* `annotated_printout_inj`         its text says what it has received and sent.
-/

namespace Zmqpp
namespace Client

open Lib.Lines (unlines runs complete)

inductive Shown where
  /-- the loop over the parts that are received -/
  | received (parts : List Bytes)
  /-- the loop over the parts of `message`, before it is sent -/
  | sending (parts : List Bytes)
deriving DecidableEq

/-- the lines that are written to `std::cout` -/
def console (options : ClientOptions) : Shown → List Bytes
  | .received parts =>
    parts.map (fun message => (if options.annotate then ascii "<<: " else []) ++ message)
      ++ [if options.annotate then ascii " --- " else []]
  | .sending parts =>
    if options.verbose then
      parts.map (fun part => (if options.annotate then ascii ">>: " else []) ++ part)
        ++ [if options.annotate then ascii " --- " else []]
    else []

def printout (options : ClientOptions) (shown : List Shown) : Bytes :=
  unlines newline (shown.flatMap (console options))

/-! ## without annotations -/

section
variable {options : ClientOptions}

theorem console_received (hplain : options.annotate = false) (parts : List Bytes) :
    console options (.received parts) = parts ++ [[]] := by
  simp [console, hplain]

theorem printout_received (hplain : options.annotate = false) (messages : List (List Bytes)) :
    printout options (messages.map .received)
      = unlines newline (messages.flatMap fun parts => parts ++ [[]]) := by
  unfold printout
  rw [List.flatMap_map]
  simp only [console_received hplain]

end

/-- **The messages of the lines are the messages.** -/
theorem runs_blocks {messages : List (List Bytes)}
    (h : ∀ m ∈ messages, m ≠ [] ∧ ∀ part ∈ m, part ≠ []) :
    runs (messages.flatMap fun parts => parts ++ [[]]) = messages := by
  induction messages with
  | nil => rfl
  | cons m messages ih =>
    obtain ⟨hne, hparts⟩ := h m List.mem_cons_self
    have hmem : [] ∉ m := fun hnil => hparts [] hnil rfl
    rw [List.flatMap_cons, List.append_assoc, List.singleton_append, Lib.Lines.runs_append hmem,
      if_neg hne, ih fun m' hm' => h m' (List.mem_cons_of_mem m hm')]
    rfl

theorem fits_nil : Fits [] := ⟨List.not_mem_nil, List.not_mem_nil, by decide⟩

theorem fits_blocks {messages : List (List Bytes)} (h : ∀ m ∈ messages, ∀ part ∈ m, Fits part) :
    ∀ l ∈ messages.flatMap fun parts => parts ++ [[]], Fits l := by
  intro l hl
  obtain ⟨m, hm, hl⟩ := List.mem_flatMap.mp hl
  rcases List.mem_append.mp hl with hl | hl
  · exact h m hm l hl
  · rw [List.mem_singleton.mp hl]
    exact fits_nil

/-- parts that `fgets` returns as they are -/
theorem inputLoop_printout {options : ClientOptions} (hplain : options.annotate = false)
    {messages : List (List Bytes)} {stdin : Stdin}
    (hc : stdin.content = printout options (messages.map .received))
    (h : ∀ m ∈ messages, m ≠ [] ∧ ∀ part ∈ m, part ≠ [] ∧ Fits part) :
    inputLoop false (stdin.content.length + 1) stdin = some (.messages messages) := by
  rw [printout_received hplain] at hc
  have henough := Lib.Lines.length_le_unlines newline
    (messages.flatMap fun parts => parts ++ [[]])
  rw [← hc] at henough
  rw [inputLoop_unlines (fits_blocks fun m hm part hpart => ((h m hm).2 part hpart).2) hc
    (Nat.lt_succ_of_le henough)]
  show some (Framed.messages (runs _)) = _
  rw [runs_blocks fun m hm => ⟨(h m hm).1, fun part hpart => ((h m hm).2 part hpart).1⟩]

theorem inLines_unlines (lines : List Bytes) :
    inLines (unlines newline lines) = inLines lines.flatten := by
  induction lines with
  | nil => rfl
  | cons l lines ih =>
    rw [Lib.Lines.unlines_cons, List.flatten_cons, inLines_append, inLines_append, ← ih]
    rfl

theorem flatten_blocks (messages : List (List Bytes)) :
    (messages.flatMap fun parts => parts ++ [[]]).flatten = messages.flatten.flatten := by
  induction messages with
  | nil => rfl
  | cons m messages ih =>
    rw [List.flatMap_cons, List.flatten_append, ih, List.flatten_cons, List.flatten_append,
      List.flatten_append]
    simp

/-- **What a client prints is, as the input of a client, the same messages** iff all parts are
lines that are not empty and that `fgets` returns in one piece. -/
theorem printout_reads_back_iff (options : ClientOptions) (hplain : options.annotate = false)
    (messages : List (List Bytes)) (stdin : Stdin)
    (hc : stdin.content = printout options (messages.map .received)) :
    inputLoop false (stdin.content.length + 1) stdin = some (.messages messages) ↔
      ∀ m ∈ messages, m ≠ [] ∧ ∀ part ∈ m, part ≠ [] ∧ Fits part := by
  refine ⟨fun h => ?_, inputLoop_printout hplain hc⟩
  obtain ⟨pieces, hpieces, hcontent, hcut⟩ := inputLoop_pieces h
  obtain ⟨hle, hlines⟩ := lines_of_cut hpieces
  -- the parts hold no more characters than the lines they are printed in, and no less
  have hlength : (pieces.map cut).flatten.length = (inLines pieces.flatten).length := by
    refine Nat.le_antisymm hle ?_
    rw [← hcut, ← hcontent, hc, printout_received hplain, inLines_unlines, flatten_blocks]
    exact List.length_filter_le ..
  obtain ⟨lines, hfits, htext⟩ := hlines hlength
  rw [← hcontent] at htext
  have henough := Lib.Lines.length_le_unlines newline lines
  rw [← htext] at henough
  have hloop : inputLoop false _ stdin = some (.messages (messagesOf false lines)) :=
    inputLoop_unlines hfits htext (Nat.lt_succ_of_le henough)
  have hmessages : messages = runs lines :=
    Framed.messages.inj (Option.some.inj (h.symm.trans hloop))
  intro m hm
  have hrun := hmessages ▸ hm
  refine ⟨of_decide_eq_true (List.mem_filter.mp hrun).2, fun part hpart => ?_⟩
  have hpart := List.mem_flatten_of_mem hrun hpart
  rw [Lib.Lines.flatten_runs] at hpart
  obtain ⟨hmem, hne⟩ := List.mem_filter.mp hpart
  exact ⟨of_decide_eq_true hne, hfits part hmem⟩

/-- two messages, read in two chunks -/
theorem printout_reads_back_two :
    inputLoop false 9 ⟨[], [[97, 10, 98, 10], [10, 99, 10, 10]]⟩
      = some (.messages [[[97], [98]], [[99]]]) := by
  refine (printout_reads_back_iff {} rfl [[[97], [98]], [[99]]]
    ⟨[], [[97, 10, 98, 10], [10, 99, 10, 10]]⟩ (by decide)).mpr ?_
  intro m hm
  refine ⟨fun hnil => absurd (hnil ▸ hm) (by decide), fun part hpart => ?_⟩
  have hall : ∀ m ∈ [[[97], [98]], [[99]]], ∀ part ∈ m, part ≠ [] ∧ newline ∉ part ∧
      (0 : UInt8) ∉ part ∧ part.length + 1 < bufferSize := by decide
  obtain ⟨hne, hnewline, hnul, hlength⟩ := hall m hm part hpart
  exact ⟨hne, hnewline, hnul, hlength⟩

/-! ## with annotations -/

namespace Shown

def parts : Shown → List Bytes
  | .received parts => parts
  | .sending parts => parts

/-- the loop that prints it is run -/
def visible (options : ClientOptions) : Shown → Bool
  | .received _ => true
  | .sending _ => options.verbose

/-- the marks of the lines -/
def mark : Shown → Bytes
  | .received _ => ascii "<<: "
  | .sending _ => ascii ">>: "

/-- a line at least, and each part on its own -/
structure Marked (x : Shown) : Prop where
  parts : x.parts ≠ []
  newline : ∀ part ∈ x.parts, newline ∉ part

instance (x : Shown) : Decidable x.Marked :=
  decidable_of_iff (x.parts ≠ [] ∧ ∀ part ∈ x.parts, newline ∉ part)
    ⟨fun h => ⟨h.1, h.2⟩, fun h => ⟨h.parts, h.newline⟩⟩

end Shown

/-- the line after a message -/
def last : Bytes := ascii " --- "

theorem console_annotated {options : ClientOptions} (ha : options.annotate = true) {x : Shown}
    (hv : x.visible options = true) :
    console options x = x.parts.map (fun part => x.mark ++ part) ++ [last] := by
  cases x with
  | received parts =>
    unfold console
    rw [ha]
    rfl
  | sending parts =>
    have hverbose : options.verbose = true := hv
    unfold console
    rw [ha, hverbose]
    rfl

theorem console_invisible {options : ClientOptions} {x : Shown} (hv : x.visible options = false) :
    console options x = [] := by
  cases x with
  | received parts => cases hv
  | sending parts => exact if_neg (Bool.eq_false_iff.mp hv)

/-- what is not printed leaves no trace -/
theorem flatMap_console (options : ClientOptions) (shown : List Shown) :
    shown.flatMap (console options)
      = (shown.filter (Shown.visible options)).flatMap (console options) := by
  induction shown with
  | nil => rfl
  | cons x shown ih =>
    rw [List.flatMap_cons, ih]
    cases hv : x.visible options with
    | true => rw [List.filter_cons_of_pos hv, List.flatMap_cons]
    | false =>
      rw [List.filter_cons_of_neg (Bool.eq_false_iff.mp hv), console_invisible hv, List.nil_append]

theorem mark_head (x : Shown) : ∃ c rest, x.mark = c :: rest ∧ c ≠ newline ∧ newline ∉ rest ∧
    some c ≠ last.head? := by
  cases x with
  | received parts => exact ⟨_, _, rfl, by decide, by decide, by decide⟩
  | sending parts => exact ⟨_, _, rfl, by decide, by decide, by decide⟩

/-- no line of a message is taken for the one after it -/
theorem last_not_mem (x : Shown) : last ∉ x.parts.map fun part => x.mark ++ part := by
  intro hmem
  obtain ⟨part, -, heq⟩ := List.mem_map.mp hmem
  obtain ⟨c, rest, hmark, -, -, hc⟩ := mark_head x
  rw [hmark] at heq
  exact hc (by rw [← heq]; rfl)

theorem console_lines {options : ClientOptions} (ha : options.annotate = true) {x : Shown}
    (hv : x.visible options = true) (h : x.Marked) : ∀ l ∈ console options x, newline ∉ l := by
  intro l hl
  rw [console_annotated ha hv] at hl
  rcases List.mem_append.mp hl with hl | hl
  · obtain ⟨part, hpart, rfl⟩ := List.mem_map.mp hl
    obtain ⟨c, rest, hmark, hc, hrest, -⟩ := mark_head x
    rw [hmark, List.mem_append, List.mem_cons, not_or, not_or]
    exact ⟨⟨fun heq => hc heq.symm, hrest⟩, h.newline part hpart⟩
  · rw [List.mem_singleton.mp hl]
    decide

/-- the lines of a message say which one it is -/
theorem marked_inj {x y : Shown} (hx : x.parts ≠ [])
    (h : x.parts.map (fun part => x.mark ++ part) = y.parts.map fun part => y.mark ++ part) :
    x = y := by
  have hmark : x.mark = y.mark := by
    obtain ⟨part, rest, hparts⟩ := List.exists_cons_of_ne_nil hx
    rw [hparts] at h
    cases hy : y.parts with
    | nil =>
      rw [hy] at h
      cases h
    | cons part' rest' =>
      rw [hy] at h
      have hhead := (List.cons.inj h).1
      have hlength : x.mark.length = y.mark.length := by
        cases x with
        | received _ => cases y with
          | received _ => rfl
          | sending _ => rfl
        | sending _ => cases y with
          | received _ => rfl
          | sending _ => rfl
      exact (List.append_inj hhead hlength).1
  have hparts : x.parts = y.parts := by
    rw [hmark] at h
    exact List.map_injective_iff.mpr (fun a b hab => List.append_cancel_left hab) h
  cases x with
  | received parts =>
    cases y with
    | received parts' => exact congrArg Shown.received hparts
    | sending parts' => exact absurd hmark (by decide : ascii "<<: " ≠ ascii ">>: ")
  | sending parts =>
    cases y with
    | received parts' => exact absurd hmark (by decide : ascii ">>: " ≠ ascii "<<: ")
    | sending parts' => exact congrArg Shown.sending hparts

theorem consoles_inj {options : ClientOptions} (ha : options.annotate = true)
    {shown shown' : List Shown} (hv : ∀ x ∈ shown, x.visible options = true)
    (hv' : ∀ x ∈ shown', x.visible options = true) (h : ∀ x ∈ shown, x.Marked)
    (heq : shown.flatMap (console options) = shown'.flatMap (console options)) :
    shown = shown' := by
  induction shown generalizing shown' with
  | nil =>
    cases shown' with
    | nil => rfl
    | cons y shown' =>
      rw [List.flatMap_cons, console_annotated ha (hv' y List.mem_cons_self)] at heq
      simp at heq
  | cons x shown ih =>
    cases shown' with
    | nil =>
      rw [List.flatMap_cons, console_annotated ha (hv x List.mem_cons_self)] at heq
      simp at heq
    | cons y shown' =>
      rw [List.flatMap_cons, List.flatMap_cons, console_annotated ha (hv x List.mem_cons_self),
        console_annotated ha (hv' y List.mem_cons_self), List.append_assoc, List.append_assoc,
        List.singleton_append, List.singleton_append] at heq
      have hfirst := congrArg (Lib.Lines.firstLine last) heq
      rw [Lib.Lines.firstLine_append (last_not_mem x), Lib.Lines.firstLine_append (last_not_mem y)]
        at hfirst
      obtain ⟨hlines, hrest⟩ := Prod.mk.inj (Option.some.inj hfirst)
      rw [marked_inj (h x List.mem_cons_self).parts hlines,
        ih (fun z hz => hv z (List.mem_cons_of_mem x hz))
          (fun z hz => hv' z (List.mem_cons_of_mem y hz))
          (fun z hz => h z (List.mem_cons_of_mem x hz)) hrest]

/-- **The text of an annotated client says what it has received**, message by message and in order,
and what it has sent if it is verbose, if no part holds a newline. -/
theorem annotated_printout_inj (options : ClientOptions) (ha : options.annotate = true)
    (shown shown' : List Shown) (h : ∀ x ∈ shown, x.Marked) (h' : ∀ x ∈ shown', x.Marked) :
    printout options shown = printout options shown' ↔
      shown.filter (Shown.visible options) = shown'.filter (Shown.visible options) := by
  constructor
  · intro heq
    have hlines : ∀ {shown : List Shown}, (∀ x ∈ shown, x.Marked) →
        ∀ l ∈ (shown.filter (Shown.visible options)).flatMap (console options), newline ∉ l := by
      intro shown h l hl
      obtain ⟨x, hx, hl⟩ := List.mem_flatMap.mp hl
      obtain ⟨hx, hv⟩ := List.mem_filter.mp hx
      exact console_lines ha hv (h x hx) l hl
    have hcomplete := congrArg (complete newline) heq
    unfold printout at hcomplete
    rw [flatMap_console options shown, flatMap_console options shown',
      Lib.Lines.complete_unlines (hlines h), Lib.Lines.complete_unlines (hlines h')] at hcomplete
    exact consoles_inj ha (fun x hx => (List.mem_filter.mp hx).2)
      (fun x hx => (List.mem_filter.mp hx).2) (fun x hx => h x (List.mem_filter.mp hx).1) hcomplete
  · intro heq
    unfold printout
    rw [flatMap_console options shown, flatMap_console options shown', heq]

/-- a request and its reply are not printed as two requests -/
theorem annotated_printout_request :
    printout { annotate := true, verbose := true } [.sending [ascii "a"], .received [ascii "b"]]
      ≠ printout { annotate := true, verbose := true }
        [.sending [ascii "a"], .sending [ascii "b"]] := by
  intro heq
  have hshown := (annotated_printout_inj _ rfl _ _ (by decide) (by decide)).mp heq
  exact absurd hshown (by decide)

end Client
end Zmqpp
