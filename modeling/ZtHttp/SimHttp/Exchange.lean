import ZtHttp.Foundation.CString
import ZtHttp.Foundation.Program
import ZtHttp.Foundation.Transition
import ZtHttp.IOBuffer.Basic

/-!
# The exchange with a CGI program

The status line is sent behind `fork`, by both processes. The parent passes the
body on and then relays what the program writes until its output ends. It closes
the program's input last of all. The two run in any order, and each waits where
its pipe is full or empty. The parent is killed by `SIGPIPE` if it writes to a
program that has exited. No other process holds an end of the two pipes, and what
the client sends ends.
-/

namespace ZtHttp.SimHttp

open Imperative Processes Transition

def statusLine : List Byte := ascii "HTTP/1.0 200 OK\r\n"

/-- Where the parent stands in `execute_cgi`. -/
inductive ParentPc where
  /-- before `send` of the status line, with a body of so many characters -/
  | announcing (left : Nat)
  /-- before the test of the loop, with so many characters to go -/
  | receiving (left : Nat)
  /-- before `write(cgi_input[1], &c, 1)` -/
  | feeding (left : Nat)
  /-- before `read(cgi_output[0], &c, 1)` -/
  | relaying
  /-- behind `waitpid` -/
  | finished
  /-- ended by the signal, in that write -/
  | killed (left : Nat)
  deriving DecidableEq

/-- The steps that the parent still has to take up to the second loop and to get
out of it. -/
def ParentPc.work : ParentPc → Nat
  | .announcing left => 2 * left + 3
  | .receiving left => 2 * left + 2
  | .feeding left => 2 * left + 3
  | .relaying => 1
  | .finished | .killed _ => 0

/-- The parent with its local `c`, what `recv` still has to give and what was
sent to the client; whether the child has sent its status line, and the program
with its pipes. -/
structure Exchange (σ : Type) where
  parent : ParentPc
  c : Byte
  socket : List Byte
  sent : List Byte
  announced : Bool
  piped : Piped Byte σ

/-- Which of the two takes its next step. -/
inductive Mover where
  | parent
  | child

/-- What the loop passes on: a `recv` that fails leaves `c` as it was, and the
loop writes it all the same. -/
def passed : Nat → List Byte → Byte → List Byte
  | 0, _, _ => []
  | left + 1, socket, c =>
      socket.headD c :: passed left socket.tail (socket.headD c)

theorem length_passed (left : Nat) (socket : List Byte) (c : Byte) :
    (passed left socket c).length = left := by
  induction left generalizing socket c with
  | zero => rfl
  | succ left ih => rw [passed, List.length_cons, ih]

/-- The body is what the client sends of it. Behind its end the last character is
passed on again and again. -/
theorem passed_eq (left : Nat) (socket : List Byte) (c : Byte) : passed left socket c =
    socket.take left ++ List.replicate (left - socket.length) (socket.getLastD c) := by
  induction left generalizing socket c with
  | zero => simp [passed]
  | succ left ih =>
      cases socket with
      | nil => simp [passed, ih, List.replicate_succ]
      | cons char rest =>
          rw [passed, List.headD_cons, List.tail_cons, ih, List.take_succ_cons, List.length_cons,
            Nat.add_sub_add_right, List.getLastD_cons, List.cons_append]

namespace Exchange

variable {σ : Type}

/-- Behind `fork`, with a body of `length` characters to pass on. -/
def opened (length : Nat) (c : Byte) (socket : List Byte) (start : σ) : Exchange σ :=
  ⟨.announcing length, c, socket, [], false, .opened start⟩

/-- The next step of the parent, unless it has to wait. -/
def advance (capacity : Nat) (exchange : Exchange σ) : Option (Exchange σ) :=
  match exchange.parent with
  | .announcing left =>
      some { exchange with parent := .receiving left, sent := exchange.sent ++ statusLine }
  | .receiving 0 => some { exchange with parent := .relaying }
  | .receiving (left + 1) =>
      some { exchange with
        parent := .feeding left
        c := exchange.socket.headD exchange.c
        socket := exchange.socket.tail }
  | .feeding left =>
      if exchange.piped.child.isNone then some { exchange with parent := .killed left }
      else if exchange.piped.input.length < capacity then
        some { exchange with
          parent := .receiving left
          piped := exchange.piped.feed exchange.c }
      else none
  | .relaying =>
      match exchange.piped.output with
      | item :: rest =>
          some { exchange with
            c := item
            sent := exchange.sent ++ [item]
            piped := { exchange.piped with output := rest } }
      | [] =>
          if exchange.piped.child.isNone then
            some { exchange with
              parent := .finished
              piped := { exchange.piped with closed := true } }
          else none
  | .finished | .killed _ => none

def next (program : Program Byte σ) (capacity : Nat) (exchange : Exchange σ) :
    Mover → Option (Exchange σ)
  | .parent => exchange.advance capacity
  | .child =>
      if exchange.announced then
        (exchange.piped.turn program capacity).map fun piped => { exchange with piped }
      else some { exchange with announced := true, sent := exchange.sent ++ statusLine }

/-- The exchange from `fork` on. -/
def system (program : Program Byte σ) (capacity : Nat) (start : Exchange σ) :
    Lts (Exchange σ) Mover :=
  .ofNext start (next program capacity)

/-- What is still to be written into the pipe. -/
def pending (exchange : Exchange σ) : List Byte :=
  match exchange.parent with
  | .announcing left | .receiving left => passed left exchange.socket exchange.c
  | .feeding left | .killed left =>
      exchange.c :: passed left exchange.socket exchange.c
  | .relaying | .finished => []

/-- Whether the parent has come to the second loop. -/
def relays (exchange : Exchange σ) : Bool :=
  match exchange.parent with
  | .relaying | .finished => true
  | .announcing _ | .receiving _ | .feeding _ | .killed _ => false

/-- The status lines that were sent. -/
def statusLines (exchange : Exchange σ) : List Byte :=
  (match exchange.parent with
    | .announcing _ => []
    | .receiving _ | .feeding _ | .relaying | .finished | .killed _ => statusLine) ++
    if exchange.announced then statusLine else []

/-- What has been put into one pipe and taken out of the other, and what the
program has read and written. -/
structure Books where
  fed : List Byte
  taken : List Byte
  read : List Byte
  written : List Byte

/-- How the books fit the exchange. -/
structure Keeps (program : Program Byte σ) (capacity : Nat) (start : σ) (body : List Byte)
    (exchange : Exchange σ) (books : Books) : Prop where
  carries : Piped.Carries program start books.fed books.taken exchange.piped books.read
    books.written
  body_eq : body = books.fed ++ exchange.pending
  sent_eq : exchange.sent = exchange.statusLines ++ books.taken
  room : exchange.piped.output.length ≤ capacity
  silent : exchange.relays = false → books.taken = []
  unannounced : exchange.announced = false →
    books.read = [] ∧ books.written = [] ∧ exchange.piped.child = some start
  opened : exchange.parent ≠ .finished → exchange.piped.closed = false
  finished : exchange.parent = .finished → exchange.piped.child = none ∧
    exchange.piped.output = []
  killed : ∀ left, exchange.parent = .killed left → exchange.piped.child = none

variable {program : Program Byte σ} {capacity : Nat} {start : σ} {body : List Byte}
  {exchange after : Exchange σ} {books : Books}

theorem keeps_opened (length : Nat) (c : Byte) (socket : List Byte) :
    Keeps program capacity start (passed length socket c) (opened length c socket start)
      ⟨[], [], [], []⟩ where
  carries := Piped.carries_opened program start
  body_eq := rfl
  sent_eq := rfl
  room := Nat.zero_le capacity
  silent _ := rfl
  unannounced _ := ⟨rfl, rfl, rfl⟩
  opened _ := rfl
  finished := nofun
  killed := nofun

/-- A program that has exited was announced. -/
theorem Keeps.announced_of_exited (hkeeps : Keeps program capacity start body exchange books)
    (hchild : exchange.piped.child = none) : exchange.announced = true := by
  cases hannounced : exchange.announced with
  | true => rfl
  | false =>
      have hstart := (hkeeps.unannounced hannounced).2.2
      rw [hchild] at hstart
      contradiction

/-- A step of the parent. -/
theorem Keeps.advance (hkeeps : Keeps program capacity start body exchange books)
    (hadvance : exchange.advance capacity = some after) :
    ∃ books', Keeps program capacity start body after books' := by
  obtain ⟨hcarries, hbody, hsent, hroom, hsilent, hunannounced, hopened, -, -⟩ := hkeeps
  obtain ⟨parent, c, socket, sent, announced, piped⟩ := exchange
  obtain ⟨fed, taken, read, written⟩ := books
  cases parent with
  | announcing left =>
      cases hadvance
      have htaken : taken = [] := hsilent rfl
      exact ⟨⟨fed, taken, read, written⟩, {
        carries := hcarries
        body_eq := hbody
        sent_eq := by
          dsimp only at hsent ⊢
          rw [hsent, htaken, List.append_nil, List.append_nil]
          cases announced <;> rfl
        room := hroom
        silent := hsilent
        unannounced := hunannounced
        opened := fun _ => hopened nofun
        finished := nofun
        killed := nofun }⟩
  | receiving left =>
      cases left with
      | zero =>
          cases hadvance
          exact ⟨⟨fed, taken, read, written⟩, hcarries, hbody, hsent, hroom, nofun, hunannounced,
            fun _ => hopened nofun, nofun, nofun⟩
      | succ left =>
          cases hadvance
          exact ⟨⟨fed, taken, read, written⟩, hcarries, hbody, hsent, hroom, hsilent, hunannounced,
            fun _ => hopened nofun, nofun, nofun⟩
  | feeding left =>
      simp only [Exchange.advance] at hadvance
      split at hadvance
      · next hexited =>
          cases hadvance
          exact ⟨⟨fed, taken, read, written⟩, hcarries, hbody, hsent, hroom, hsilent, hunannounced,
            fun _ => hopened nofun, nofun, fun _ _ => Option.isNone_iff_eq_none.mp hexited⟩
      · split at hadvance
        · cases hadvance
          refine ⟨⟨fed ++ [c], taken, read, written⟩, hcarries.feed c, ?_, hsent, hroom, hsilent,
            hunannounced, fun _ => hopened nofun, nofun, nofun⟩
          rw [hbody, pending, pending, List.append_assoc, List.singleton_append]
        · contradiction
  | relaying =>
      simp only [Exchange.advance] at hadvance
      split at hadvance
      · next item rest houtput =>
          cases hadvance
          rw [houtput, List.length_cons] at hroom
          refine ⟨⟨fed, taken ++ [item], read, written⟩, hcarries.take houtput, hbody, ?_,
            Nat.le_of_succ_le hroom, nofun, hunannounced, fun _ => hopened nofun, nofun, nofun⟩
          exact (congrArg (· ++ [item]) hsent).trans (List.append_assoc _ _ _)
      · next houtput =>
          obtain ⟨hexited, heq⟩ := Option.ite_none_right_eq_some.mp hadvance
          cases heq
          have hchild := Option.isNone_iff_eq_none.mp hexited
          exact ⟨⟨fed, taken, read, written⟩,
            ⟨hcarries.fed_eq, hcarries.written_eq, hcarries.running, hcarries.exited⟩, hbody, hsent,
            hroom, nofun, hunannounced, fun hother => absurd rfl hother,
            fun _ => ⟨hchild, houtput⟩, nofun⟩
  | finished => contradiction
  | killed left => contradiction

/-- The child's status line. -/
theorem Keeps.announce (hkeeps : Keeps program capacity start body exchange books)
    (hannounced : exchange.announced = false) :
    Keeps program capacity start body
      { exchange with announced := true, sent := exchange.sent ++ statusLine } books := by
  obtain ⟨-, hwritten, -⟩ := hkeeps.unannounced hannounced
  have htaken : books.taken = [] := by
    have heq := hkeeps.carries.written_eq
    rw [hwritten] at heq
    exact (List.append_eq_nil_iff.mp heq.symm).1
  exact {
    carries := hkeeps.carries
    body_eq := hkeeps.body_eq
    sent_eq := by
      have hsent := hkeeps.sent_eq
      rw [htaken, List.append_nil] at hsent ⊢
      simp only [statusLines, hannounced, Bool.false_eq_true, if_false, List.append_nil] at hsent
      simp only [statusLines, hsent, if_true]
    room := hkeeps.room
    silent := hkeeps.silent
    unannounced := nofun
    opened := hkeeps.opened
    finished := hkeeps.finished
    killed := hkeeps.killed }

/-- A turn of the program, which has not exited and whose input is open. -/
theorem Keeps.turn {piped : Piped Byte σ}
    (hkeeps : Keeps program capacity start body exchange books)
    (hannounced : exchange.announced = true)
    (hturn : exchange.piped.turn program capacity = some piped) :
    ∃ books', Keeps program capacity start body { exchange with piped } books' := by
  have hchild : exchange.piped.child ≠ none := by
    intro hnone
    simp only [Piped.turn, hnone] at hturn
    contradiction
  have hrunning : exchange.parent ≠ .finished := fun hparent =>
    hchild (hkeeps.finished hparent).1
  obtain ⟨more, rest, hcarries, hopen⟩ := hkeeps.carries.turn (hkeeps.opened hrunning) hturn
  refine ⟨⟨books.fed, books.taken, books.read ++ more, books.written ++ rest⟩, hcarries,
    hkeeps.body_eq, hkeeps.sent_eq, Piped.output_length_turn hkeeps.room hturn, hkeeps.silent, ?_,
    fun _ => hopen, fun hparent => absurd hparent hrunning, ?_⟩
  · intro hother
    exact absurd (hannounced.symm.trans hother) nofun
  · intro left hparent
    exact absurd (hkeeps.killed left hparent) hchild

theorem keeps_step {mover : Mover}
    (hkeeps : ∃ books, Keeps program capacity start body exchange books)
    (hnext : next program capacity exchange mover = some after) :
    ∃ books, Keeps program capacity start body after books := by
  obtain ⟨books, hkeeps⟩ := hkeeps
  cases mover with
  | parent => exact hkeeps.advance hnext
  | child =>
      simp only [next] at hnext
      split at hnext
      · next hannounced =>
          obtain ⟨piped, hturn, rfl⟩ := Option.map_eq_some_iff.mp hnext
          exact hkeeps.turn hannounced hturn
      · next hannounced =>
          cases hnext
          exact ⟨books, hkeeps.announce (Bool.eq_false_iff.mpr hannounced)⟩

theorem keeps_reachable {length : Nat} {c : Byte} {socket : List Byte}
    (hreach : (system program capacity (opened length c socket start)).Reachable exchange) :
    ∃ books, Keeps program capacity start (passed length socket c) exchange books := by
  apply hreach.invariant
    (fun exchange => ∃ books, Keeps program capacity start (passed length socket c) exchange books)
  · rintro _ rfl
    exact ⟨_, keeps_opened length c socket⟩
  · intro state mover next hstate hstep
    exact keeps_step hstate hstep

/-! ### What is relayed -/

/-- The program has read the beginning of the body, which never ends for it.
What was sent is the status lines and the beginning of what the program has
written; in the end two status lines, and all of it. -/
structure RelaysExactly (program : Program Byte σ) (start : σ) (body : List Byte)
    (exchange : Exchange σ) (read written : List Byte) : Prop where
  read_prefix : read <+: body
  opened : exchange.piped.child ≠ none → exchange.piped.closed = false
  running : ∀ state, exchange.piped.child = some state →
    Program.Runs program start read written state
  exited : exchange.piped.child = none → Program.Exits program start read written
  sent : ∃ taken, taken <+: written ∧ exchange.sent = exchange.statusLines ++ taken
  finished : exchange.parent = .finished →
    exchange.piped.child = none ∧ exchange.sent = statusLine ++ statusLine ++ written

/-- In every state of every exchange. -/
theorem relays_exactly {length : Nat} {c : Byte} {socket : List Byte}
    (hreach : (system program capacity (opened length c socket start)).Reachable exchange) :
    ∃ read written, RelaysExactly program start (passed length socket c) exchange read written := by
  obtain ⟨books, hkeeps⟩ := keeps_reachable hreach
  have hcarries := hkeeps.carries
  refine ⟨books.read, books.written, ?_, ?_, hcarries.running, hcarries.exited,
    ⟨books.taken, ?_, hkeeps.sent_eq⟩, ?_⟩
  · rw [hkeeps.body_eq, hcarries.fed_eq, List.append_assoc]
    exact List.prefix_append _ _
  · intro hchild
    exact hkeeps.opened fun hfinished => hchild (hkeeps.finished hfinished).1
  · rw [hcarries.written_eq]
    exact List.prefix_append _ _
  · intro hfinished
    obtain ⟨hchild, houtput⟩ := hkeeps.finished hfinished
    refine ⟨hchild, ?_⟩
    rw [hkeeps.sent_eq, hcarries.written_eq, houtput, List.append_nil, statusLines, hfinished,
      hkeeps.announced_of_exited hchild]
    rfl

/-- A program that reads a character, writes it and exits. -/
inductive Echo where
  | asking
  | holding (char : Byte)
  | leaving

def echo : Program Byte Echo
  | .asking => .read fun item => item.elim .leaving .holding
  | .holding char => .write char .leaving
  | .leaving => .exit

theorem echo_exits (char : Byte) : Program.Exits echo .asking [char] [char] :=
  ⟨.leaving, .read rfl (.write rfl (.nil _)), rfl⟩

/-- A body of one character is echoed. -/
theorem echoed_relays : ∃ exchange read written, exchange.parent = .finished ∧
    RelaysExactly echo .asking [104] exchange read written := by
  have hexec : Lts.exec (next echo 1) (opened 1 0 [104] .asking)
      [.parent, .child, .parent, .parent, .child, .parent, .child, .child, .parent, .parent] =
        some ⟨.finished, 104, [], statusLine ++ statusLine ++ [104], true,
          ⟨[], [], none, true⟩⟩ := rfl
  obtain ⟨read, written, hrelays⟩ := relays_exactly (Lts.reachable_of_exec hexec)
  exact ⟨_, read, written, rfl, hrelays⟩

/-! ### Where an exchange ends -/

/-- The program asks for more than the body, and the parent waits for it to
write or to exit. All that it has written was sent. -/
def Starved (program : Program Byte σ) (start : σ) (body : List Byte) (exchange : Exchange σ) :
    Prop :=
  exchange.parent = .relaying ∧ ∃ state next written, exchange.piped.child = some state ∧
    program state = .read next ∧ Program.Runs program start body written state ∧
    exchange.sent = statusLine ++ statusLine ++ written

/-- Both pipes are full, and both wait to write. -/
def Clogged (program : Program Byte σ) (capacity : Nat) (start : σ) (body : List Byte)
    (exchange : Exchange σ) : Prop :=
  ∃ read written state item next, exchange.piped.child = some state ∧
    read <+: body ∧ Program.Runs program start read written state ∧
    program state = .write item next ∧ read.length + capacity < body.length ∧
    written.length = capacity

/-- A program that has to wait asks for input where there is none, or has no room
for its output. -/
theorem waits_of_turn_none {piped : Piped Byte σ} {state : σ}
    (hstate : piped.child = some state) (hturn : piped.turn program capacity = none) :
    (piped.input = [] ∧ ∃ next, program state = .read next) ∨
      (capacity ≤ piped.output.length ∧ ∃ item next, program state = .write item next) := by
  simp only [Piped.turn, hstate] at hturn
  cases hcall : program state with
  | exit =>
      rw [hcall] at hturn
      contradiction
  | read next =>
      simp only [hcall] at hturn
      split at hturn
      · contradiction
      · next hinput => exact .inl ⟨hinput, next, rfl⟩
  | write item next =>
      simp only [hcall] at hturn
      split at hturn
      · contradiction
      · next hfull => exact .inr ⟨Nat.le_of_not_lt hfull, item, next, rfl⟩

/-- Where neither can take a step, one of the two loops waits for ever or the
parent has ended. -/
theorem stuck_cases (hcapacity : 0 < capacity)
    (hkeeps : Keeps program capacity start body exchange books)
    (hstuck : ∀ mover, next program capacity exchange mover = none) :
    exchange.parent = .finished ∨ (∃ left, exchange.parent = .killed left) ∨
      Starved program start body exchange ∨ Clogged program capacity start body exchange := by
  have hparent : exchange.advance capacity = none := hstuck .parent
  have hchild : (if exchange.announced then (exchange.piped.turn program capacity).map
      fun piped => { exchange with piped } else some _) = none := hstuck .child
  cases hannounced : exchange.announced with
  | false =>
      rw [hannounced] at hchild
      contradiction
  | true =>
      rw [hannounced, if_pos rfl, Option.map_eq_none_iff] at hchild
      obtain ⟨hcarries, hbody, hsent, hroom, hsilent, -, -, -, -⟩ := hkeeps
      obtain ⟨parent, c, socket, sent, announced, piped⟩ := exchange
      cases parent with
      | announcing left => contradiction
      | receiving left => cases left <;> contradiction
      | feeding left =>
          simp only [advance, Option.isNone_iff_eq_none] at hparent
          split at hparent
          · contradiction
          · next halive =>
              obtain ⟨state, hstate⟩ := Option.ne_none_iff_exists'.mp halive
              have hfull : ¬ piped.input.length < capacity := by
                intro hless
                rw [if_pos hless] at hparent
                contradiction
              have hruns := hcarries.running state hstate
              rcases waits_of_turn_none hstate hchild with
                ⟨hinput, -⟩ | ⟨houtput, item, next, hcall⟩
              · rw [hinput] at hfull
                exact absurd hcapacity hfull
              · refine .inr (.inr (.inr ⟨books.read, books.written, state, item, next, hstate, ?_,
                  hruns, hcall, ?_, ?_⟩))
                · rw [hbody, hcarries.fed_eq, List.append_assoc]
                  exact List.prefix_append _ _
                · rw [hbody, hcarries.fed_eq, pending]
                  simp only [List.length_append, List.length_cons]
                  omega
                · rw [hcarries.written_eq, hsilent rfl, List.nil_append]
                  exact Nat.le_antisymm hroom houtput
      | relaying =>
          simp only [advance, Option.isNone_iff_eq_none] at hparent
          split at hparent
          · contradiction
          · next houtput =>
              split at hparent
              · contradiction
              · next halive =>
                  obtain ⟨state, hstate⟩ := Option.ne_none_iff_exists'.mp halive
                  have hruns := hcarries.running state hstate
                  rcases waits_of_turn_none hstate hchild with
                    ⟨hinput, next, hcall⟩ | ⟨hfull, -⟩
                  · have hread : body = books.read := by
                      rw [hbody, hcarries.fed_eq, hinput, pending, List.append_nil, List.append_nil]
                    have hwritten : books.written = books.taken := by
                      rw [hcarries.written_eq, houtput, List.append_nil]
                    refine .inr (.inr (.inl ⟨rfl, state, next, books.written, hstate, hcall,
                      hread ▸ hruns, ?_⟩))
                    rw [hsent, hwritten, statusLines, hannounced]
                    rfl
                  · rw [houtput] at hfull
                    exact absurd hcapacity (Nat.not_lt.mpr hfull)
      | finished => exact .inl rfl
      | killed left => exact .inr (.inl ⟨left, rfl⟩)

/-- In every exchange. -/
theorem reachable_stuck {length : Nat} {c : Byte} {socket : List Byte} (hcapacity : 0 < capacity)
    (hreach : (system program capacity (opened length c socket start)).Reachable exchange)
    (hstuck : ∀ mover, next program capacity exchange mover = none) :
    exchange.parent = .finished ∨ (∃ left, exchange.parent = .killed left) ∨
      Starved program start (passed length socket c) exchange ∨
      Clogged program capacity start (passed length socket c) exchange := by
  obtain ⟨books, hkeeps⟩ := keeps_reachable hreach
  exact stuck_cases hcapacity hkeeps hstuck

/-- A program that reads one character of a body that is empty. -/
theorem emptyBody_starved : ∃ exchange : Exchange Echo,
    exchange.parent = .finished ∨ (∃ left, exchange.parent = .killed left) ∨
      Starved echo .asking [] exchange ∨ Clogged echo 1 .asking [] exchange := by
  have hexec : Lts.exec (next echo 1) (opened 0 0 [104] .asking) [.parent, .parent, .child] =
      some ⟨.relaying, 0, [104], statusLine ++ statusLine, true, .opened .asking⟩ := rfl
  refine ⟨_, @reachable_stuck _ _ _ _ _ 0 _ _ (by decide) (Lts.reachable_of_exec hexec) ?_⟩
  rintro (_ | _) <;> rfl

/-! ### Programs that take the whole body -/

variable {output : List Byte}

/-- The program still reads what it has not read of the body, and writes what is
missing of its output. -/
theorem Keeps.left_of_running (hkeeps : Keeps program capacity start body exchange books)
    (hexits : Program.Exits program start body output) {state : σ}
    (hchild : exchange.piped.child = some state) :
    ∃ rest, output = books.written ++ rest ∧
      Program.Exits program state (exchange.piped.input ++ exchange.pending) rest := by
  have hbody : body = books.read ++ (exchange.piped.input ++ exchange.pending) := by
    rw [hkeeps.body_eq, hkeeps.carries.fed_eq, List.append_assoc]
  obtain ⟨more, rest, hmore, hrest, hleft⟩ :=
    (hkeeps.carries.running state hchild).continues hexits (hbody ▸ List.prefix_append _ _)
  rw [hbody] at hmore
  exact ⟨rest, hrest, List.append_cancel_left hmore ▸ hleft⟩

/-- Once it has exited it has read and written everything. -/
theorem Keeps.whole_of_exited (hkeeps : Keeps program capacity start body exchange books)
    (hexits : Program.Exits program start body output) (hchild : exchange.piped.child = none) :
    exchange.pending = [] ∧ books.written = output := by
  have hbody : body = books.read ++ (exchange.piped.input ++ exchange.pending) := by
    rw [hkeeps.body_eq, hkeeps.carries.fed_eq, List.append_assoc]
  obtain ⟨last, hruns, hexit⟩ := hkeeps.carries.exited hchild
  obtain ⟨more, rest, hmore, hrest, hleft⟩ :=
    hruns.continues hexits (hbody ▸ List.prefix_append _ _)
  obtain ⟨rfl, rfl⟩ := (Program.exits_exit hexit).mp hleft
  rw [hbody, List.append_cancel_left_eq, List.append_eq_nil_iff] at hmore
  exact ⟨hmore.2, by rw [hrest, List.append_nil]⟩

theorem Keeps.written_prefix (hkeeps : Keeps program capacity start body exchange books)
    (hexits : Program.Exits program start body output) : books.written <+: output := by
  cases hchild : exchange.piped.child with
  | none => exact (hkeeps.whole_of_exited hexits hchild).2 ▸ List.prefix_rfl
  | some state =>
      obtain ⟨rest, hrest, -⟩ := hkeeps.left_of_running hexits hchild
      exact ⟨rest, hrest.symm⟩

/-- The steps that are left of an exchange with a program that writes `output`. -/
def work (output : List Byte) (exchange : Exchange σ) : Nat :=
  exchange.parent.work + exchange.pending.length + exchange.piped.input.length +
    (output.length + exchange.statusLines.length - exchange.sent.length -
      exchange.piped.output.length) +
    (output.length + exchange.statusLines.length - exchange.sent.length) +
    exchange.piped.child.toList.length + (!exchange.announced).toNat

theorem work_advance (hkeeps : Keeps program capacity start body exchange books)
    (hexits : Program.Exits program start body output)
    (hadvance : exchange.advance capacity = some after) :
    after.work output < exchange.work output := by
  have hwritten := (hkeeps.written_prefix hexits).length_le
  rw [hkeeps.carries.written_eq, List.length_append] at hwritten
  have hsent := congrArg List.length hkeeps.sent_eq
  rw [List.length_append] at hsent
  have hwhole := hkeeps.whole_of_exited hexits
  obtain ⟨parent, c, socket, sent, announced, piped⟩ := exchange
  cases parent with
  | announcing left =>
      cases hadvance
      simp only [work, ParentPc.work, pending, statusLines, List.length_append, List.length_nil]
      omega
  | receiving left =>
      cases left with
      | zero =>
          cases hadvance
          simp only [work, ParentPc.work, pending, passed, statusLines]
          omega
      | succ left =>
          cases hadvance
          simp only [work, ParentPc.work, pending, passed, statusLines, List.length_cons]
          omega
  | feeding left =>
      simp only [Exchange.advance, Option.isNone_iff_eq_none] at hadvance
      split at hadvance
      · next hchild => exact absurd (hwhole hchild).1 (List.cons_ne_nil _ _)
      · obtain ⟨-, heq⟩ := Option.ite_none_right_eq_some.mp hadvance
        cases heq
        simp only [work, ParentPc.work, pending, statusLines, Piped.feed, List.length_cons,
          List.length_append, List.length_nil]
        omega
  | relaying =>
      simp only [Exchange.advance] at hadvance
      split at hadvance
      · next item rest houtput =>
          cases hadvance
          rw [houtput, List.length_cons] at hwritten
          simp only [statusLines] at hsent
          simp only [work, ParentPc.work, pending, statusLines, houtput, List.length_cons,
            List.length_append, List.length_nil] at hsent ⊢
          omega
      · obtain ⟨-, heq⟩ := Option.ite_none_right_eq_some.mp hadvance
        cases heq
        simp only [work, ParentPc.work, pending, statusLines]
        omega
  | finished => contradiction
  | killed left => contradiction

theorem work_turn {piped : Piped Byte σ}
    (hkeeps : Keeps program capacity start body exchange books)
    (hexits : Program.Exits program start body output)
    (hturn : exchange.piped.turn program capacity = some piped) :
    work output { exchange with piped } < exchange.work output := by
  cases hchild : exchange.piped.child with
  | none =>
      simp only [Piped.turn, hchild] at hturn
      contradiction
  | some state =>
      have hopen : exchange.piped.closed = false := hkeeps.opened fun hparent =>
        absurd (hkeeps.finished hparent).1 (by simp [hchild])
      obtain ⟨rest, houtput, hleft⟩ := hkeeps.left_of_running hexits hchild
      have hlength := congrArg List.length houtput
      rw [hkeeps.carries.written_eq, List.length_append, List.length_append] at hlength
      have hsent := congrArg List.length hkeeps.sent_eq
      rw [List.length_append] at hsent
      simp only [Piped.turn, hchild] at hturn
      cases hcall : program state with
      | exit =>
          simp only [hcall, Option.some.injEq] at hturn
          subst hturn
          simp [work, hchild, pending, statusLines]
      | write item next =>
          simp only [hcall, Option.ite_none_right_eq_some, Option.some.injEq] at hturn
          obtain ⟨-, rfl⟩ := hturn
          obtain ⟨rest', rfl, -⟩ := (Program.exits_write hcall).mp hleft
          rw [List.length_cons] at hlength
          simp only [statusLines] at hsent
          simp only [work, hchild, pending, statusLines, List.length_append, List.length_cons,
            List.length_nil, Option.toList_some] at hsent ⊢
          omega
      | read next =>
          simp only [hcall, hopen] at hturn
          cases hinput : exchange.piped.input with
          | nil =>
              rw [hinput] at hturn
              contradiction
          | cons item rest' =>
              simp only [hinput, Option.some.injEq] at hturn
              subst hturn
              simp [work, hchild, pending, hinput, statusLines]

theorem work_announce (hannounced : exchange.announced = false) :
    work output { exchange with announced := true, sent := exchange.sent ++ statusLine } <
      exchange.work output := by
  simp only [work, pending, statusLines, hannounced, List.length_append, if_true,
    Bool.false_eq_true, if_false, List.length_nil, Bool.not_true, Bool.not_false, Bool.toNat_true,
    Bool.toNat_false]
  omega

theorem work_step {mover : Mover} (hkeeps : Keeps program capacity start body exchange books)
    (hexits : Program.Exits program start body output)
    (hnext : next program capacity exchange mover = some after) :
    after.work output < exchange.work output := by
  cases mover with
  | parent => exact work_advance hkeeps hexits hnext
  | child =>
      simp only [next] at hnext
      split at hnext
      · obtain ⟨piped, hturn, rfl⟩ := Option.map_eq_some_iff.mp hnext
        exact work_turn hkeeps hexits hturn
      · next hannounced =>
          cases hnext
          exact work_announce (Bool.eq_false_iff.mpr hannounced)

/-- The exchange with a program that reads the body and exits cannot stop before
all of its output is sent, unless the body and the output are both too long for
the pipes. -/
theorem finished_of_stuck {length : Nat} {c : Byte} {socket : List Byte} (hcapacity : 0 < capacity)
    (hexits : Program.Exits program start (passed length socket c) output)
    (hfits : length ≤ capacity ∨ output.length ≤ capacity)
    (hkeeps : Keeps program capacity start (passed length socket c) exchange books)
    (hstuck : ∀ mover, next program capacity exchange mover = none) :
    exchange.parent = .finished ∧ exchange.sent = statusLine ++ statusLine ++ output := by
  rcases stuck_cases hcapacity hkeeps hstuck with
    hfinished | ⟨left, hkilled⟩ | ⟨-, state, next, written, hchild, hcall, hruns, -⟩ |
      ⟨read, written, state, item, next, hchild, hwithin, hruns, hcall, hlong, hfull⟩
  · obtain ⟨hchild, houtput⟩ := hkeeps.finished hfinished
    refine ⟨hfinished, ?_⟩
    rw [← (hkeeps.whole_of_exited hexits hchild).2, hkeeps.carries.written_eq, houtput,
      List.append_nil, hkeeps.sent_eq, statusLines, hfinished, hkeeps.announced_of_exited hchild]
    rfl
  · -- a program that has exited has read the whole body
    have hnil := (hkeeps.whole_of_exited hexits (hkeeps.killed left hkilled)).1
    rw [pending, hkilled] at hnil
    contradiction
  · obtain ⟨more, rest, hmore, -, hleft⟩ := hruns.continues hexits List.prefix_rfl
    rw [List.self_eq_append_right] at hmore
    obtain ⟨item, rest', hcons, -⟩ := (Program.exits_read hcall).mp hleft
    rw [hmore] at hcons
    contradiction
  · obtain ⟨more, rest, -, houtput, hleft⟩ := hruns.continues hexits hwithin
    obtain ⟨rest', rfl, -⟩ := (Program.exits_write hcall).mp hleft
    rw [length_passed] at hlong
    rw [houtput, List.length_append, List.length_cons] at hfits
    omega

/-- Such an exchange ends, in whatever order its steps are taken. -/
theorem completes {length : Nat} {c : Byte} {socket : List Byte} (hcapacity : 0 < capacity)
    (hexits : Program.Exits program start (passed length socket c) output)
    (hfits : length ≤ capacity ∨ output.length ≤ capacity) :
    (∃ bound, ∀ movers exchange,
      (system program capacity (opened length c socket start)).Run (opened length c socket start)
        movers exchange → movers.length ≤ bound) ∧
    ∀ exchange, (system program capacity (opened length c socket start)).Reachable exchange →
      (∀ mover, next program capacity exchange mover = none) →
      exchange.parent = .finished ∧ exchange.sent = statusLine ++ statusLine ++ output := by
  constructor
  · refine ⟨(opened length c socket start).work output, ?_⟩
    intro movers exchange hrun
    have hbound := hrun.length_le
      (fun exchange =>
        ∃ books, Keeps program capacity start (passed length socket c) exchange books)
      (work output) (fun _ _ _ hstate hstep => keeps_step hstate hstep)
      (fun _ _ _ ⟨_, hkeeps⟩ hstep => work_step hkeeps hexits hstep)
      ⟨_, keeps_opened length c socket⟩
    omega
  · intro exchange hreach hstuck
    obtain ⟨books, hkeeps⟩ := keeps_reachable hreach
    exact finished_of_stuck hcapacity hexits hfits hkeeps hstuck

/-- Every exchange over one character with the echo. -/
theorem echo_completes :
    (∃ bound, ∀ movers exchange, (system echo 1 (opened 1 0 [104] .asking)).Run
      (opened 1 0 [104] .asking) movers exchange → movers.length ≤ bound) ∧
    ∀ exchange, (system echo 1 (opened 1 0 [104] .asking)).Reachable exchange →
      (∀ mover, next echo 1 exchange mover = none) →
      exchange.parent = .finished ∧ exchange.sent = statusLine ++ statusLine ++ [104] :=
  completes (by decide) (echo_exits 104) (.inl (by decide))

/-! ### Programs that exit early -/

/-- The parent in its first loop, and the program where it waits for input. -/
def atLoop (left : Nat) (c : Byte) (socket front : List Byte) (state : σ) : Exchange σ :=
  ⟨.receiving left, c, socket, statusLine ++ statusLine, true, ⟨[], front, some state, false⟩⟩

/-- The parent can pass on each character just when the program asks for it, as
long as what the program writes fits the pipe. -/
theorem exists_run_of_runs (hcapacity : 0 < capacity) {first : Exchange σ} {state last : σ}
    {read written : List Byte} (hruns : Program.Runs program state read written last) {left : Nat}
    {c : Byte} {socket front rest : List Byte} (hbody : passed left socket c = read ++ rest)
    (hroom : (front ++ written).length ≤ capacity) :
    ∃ movers left' c' socket', (system program capacity first).Run
        (atLoop left c socket front state) movers
        (atLoop left' c' socket' (front ++ written) last) ∧
      passed left' socket' c' = rest := by
  induction hruns generalizing left c socket front with
  | nil state =>
      refine ⟨[], left, c, socket, ?_, hbody⟩
      rw [List.append_nil]
      exact .nil _
  | @read state last next item input output hcall _ ih =>
      cases left with
      | zero => contradiction
      | succ left =>
          obtain ⟨hitem, hbehind⟩ := List.cons.inj hbody
          obtain ⟨movers, left', c', socket', hrun, hrest⟩ := ih hbehind hroom
          have hreceive : Exchange.next program capacity (atLoop (left + 1) c socket front state)
              .parent = some ⟨.feeding left, socket.headD c, socket.tail, statusLine ++ statusLine,
                true, ⟨[], front, some state, false⟩⟩ := rfl
          have hfeed : Exchange.next program capacity ⟨.feeding left, socket.headD c, socket.tail,
              statusLine ++ statusLine, true, ⟨[], front, some state, false⟩⟩ .parent =
                some ⟨.receiving left, socket.headD c, socket.tail, statusLine ++ statusLine, true,
                  ⟨[socket.headD c], front, some state, false⟩⟩ := by
            simp [Exchange.next, advance, Piped.feed, hcapacity]
          have hread : Exchange.next program capacity ⟨.receiving left, socket.headD c,
              socket.tail, statusLine ++ statusLine, true,
                ⟨[socket.headD c], front, some state, false⟩⟩ .child =
                some (atLoop left (socket.headD c) socket.tail front (next (some item))) := by
            rw [← hitem]
            simp [Exchange.next, Piped.turn, hcall, atLoop]
          exact ⟨.parent :: .parent :: .child :: movers, left', c', socket',
            .cons hreceive (.cons hfeed (.cons hread hrun)), hrest⟩
  | @write state last next item input output hcall _ ih =>
      have hmore : (front ++ [item] ++ output).length ≤ capacity := by
        rwa [List.append_assoc, List.singleton_append]
      obtain ⟨movers, left', c', socket', hrun, hrest⟩ := ih hbody hmore
      rw [List.append_assoc, List.singleton_append] at hrun
      refine ⟨.child :: movers, left', c', socket', .cons ?_ hrun, hrest⟩
      have hless : front.length < capacity := by
        rw [List.length_append, List.length_cons] at hroom
        omega
      simp [system, Lts.ofNext, Exchange.next, atLoop, Piped.turn, hcall, hless]

/-- Some order of the steps has the server killed exactly if the program exits
before it has read the whole body, with its output still in the pipe. -/
theorem killed_iff {length : Nat} {c : Byte} {socket : List Byte} (hcapacity : 0 < capacity) :
    (∃ exchange left, (system program capacity (opened length c socket start)).Reachable exchange ∧
      exchange.parent = .killed left) ↔
    ∃ read written, Program.Exits program start read written ∧
      read <+: passed length socket c ∧ read.length < length ∧ written.length ≤ capacity := by
  constructor
  · rintro ⟨exchange, left, hreach, hkilled⟩
    obtain ⟨books, hkeeps⟩ := keeps_reachable hreach
    have hcarries := hkeeps.carries
    have hbody := hkeeps.body_eq
    rw [pending, hkilled, hcarries.fed_eq, List.append_assoc] at hbody
    refine ⟨books.read, books.written, hcarries.exited (hkeeps.killed left hkilled),
      hbody ▸ List.prefix_append _ _, ?_, ?_⟩
    · have hlength := congrArg List.length hbody
      rw [length_passed, List.length_append, List.length_append, List.length_cons] at hlength
      omega
    · have hsilent := hkeeps.silent (by rw [relays, hkilled])
      rw [hcarries.written_eq, hsilent, List.nil_append]
      exact hkeeps.room
  · rintro ⟨read, written, ⟨last, hruns, hexit⟩, ⟨rest, hbody⟩, hshort, hroom⟩
    have hannounce : Exchange.next program capacity (opened length c socket start) .parent =
      some ⟨.receiving length, c, socket, statusLine, false, .opened start⟩ := rfl
    have hforked : Exchange.next program capacity ⟨.receiving length, c, socket, statusLine, false,
      .opened start⟩ .child = some (atLoop length c socket [] start) := rfl
    obtain ⟨movers, left, c', socket', hrun, hrest⟩ :=
      @exists_run_of_runs _ _ _ hcapacity (opened length c socket start) _ _ _ _ hruns _ _ _ [] _
        hbody.symm hroom
    cases left with
    | zero =>
        -- there is a character left to pass on
        have hlength := congrArg List.length hbody
        rw [← hrest, length_passed, List.length_append, length_passed] at hlength
        omega
    | succ left =>
        have hexited : Exchange.next program capacity
            (atLoop (left + 1) c' socket' ([] ++ written) last) .child =
              some ⟨.receiving (left + 1), c', socket', statusLine ++ statusLine, true,
                ⟨[], written, none, false⟩⟩ := by
          simp [Exchange.next, Piped.turn, hexit, atLoop]
        have hreceive : Exchange.next program capacity ⟨.receiving (left + 1), c', socket',
            statusLine ++ statusLine, true, ⟨[], written, none, false⟩⟩ .parent =
              some ⟨.feeding left, socket'.headD c', socket'.tail, statusLine ++ statusLine, true,
                ⟨[], written, none, false⟩⟩ := rfl
        have hsignal : Exchange.next program capacity ⟨.feeding left, socket'.headD c',
            socket'.tail, statusLine ++ statusLine, true, ⟨[], written, none, false⟩⟩ .parent =
              some ⟨.killed left, socket'.headD c', socket'.tail, statusLine ++ statusLine, true,
                ⟨[], written, none, false⟩⟩ := rfl
        exact ⟨_, left, ⟨_, _, rfl, .cons hannounce (.cons hforked (hrun.trans
          (.cons hexited (.cons hreceive (.cons hsignal (.nil _))))))⟩, rfl⟩

/-- A program that does not look at its input. -/
theorem deaf_killed : ∃ exchange left, (system (fun _ : Unit => .exit) 1
    (opened 1 0 [104] ())).Reachable exchange ∧ exchange.parent = .killed left :=
  (killed_iff (by decide)).mpr
    ⟨[], [], ⟨(), .nil (), rfl⟩, List.nil_prefix, by decide, by decide⟩

end Exchange

end ZtHttp.SimHttp
