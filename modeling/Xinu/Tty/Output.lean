import Xinu.Tty.Line

/-!
# Terminal output

`ttyhandle_out` takes what `tyosem` does not count for the number of characters in `tyobuff`. A
writer that was released and has not stored its character is not counted there either.
-/

namespace Xinu.Tty.Output

open Xinu.Lib.Interleaving Xinu.Lib.Ring Xinu.Lib.Semaphores
open Xinu.Tty.Line

set_option autoImplicit false

section Definitions

/-- The characters that were put and not sent -/
def unsent (m : Ttycblk) : Nat := m.put.length - m.sent.length

/-- The characters in the echo queue -/
def echoes (m : Ttycblk) : Nat := (m.tyetail + tyEbuflen - m.tyehead) % tyEbuflen

/-- The characters that `ttyhandle_out` took are those that `ttyputc` stored, up to the ones in the
queue, each of which has a place of its own. -/
def Delivers (m : Ttycblk) : Prop :=
  Fifo tyObuflen m.tyobuff m.tyohead m.tyotail (unsent m) m.put m.sent

/-- When the interrupt handler sends, no writer is between its release and its store, or the UART
takes no more characters than there are. -/
def Settled (m : Ttycblk) : Event → Prop
  | .interrupt => m.tyoheld = true ∨ m.tyosem.passed = [] ∨ uartFifoSize ≤ echoes m + unsent m
  | _ => True

instance (m : Ttycblk) : DecidablePred (Settled m)
  | .interrupt => inferInstanceAs (Decidable (_ ∨ _))
  | .arrives _ | .getc _ | .reads _ | .putc _ _ | .writes _ => .isTrue trivial

end Definitions

section Queue

variable {m m' : Ttycblk} {n : Nat} {pid : Int} {ch : Int8}

/-- The processes in `ttyputc` that have waited and not run -/
def writers (q : Line.Output) : List Int := q.tyosem.queue ++ q.tyosem.passed

/-- The queue, of which `n` characters are not sent -/
structure Inv (q : Line.Output) (n : Nat) : Prop where
  fifo : Fifo tyObuflen q.tyobuff q.tyohead q.tyotail n q.put q.sent
  sound : q.tyosem.Sound
  level : q.tyosem.level + n = tyObuflen
  single : (writers q).Nodup

/-- A process that waits has a character to put. -/
def Busy (q : Line.Output) : Prop := ∀ pid ∈ writers q, q.writing pid ≠ []

/-- A writer behind its `wait` stores its character. -/
theorem place_inv (inv : Inv m.toOutput n) (passed : pid ∈ m.tyosem.passed) (ch : Int8) :
    Inv (place m pid ch).toOutput (n + 1) := by
  have positive := List.length_pos_of_mem passed
  have sound := inv.sound
  have level := inv.level
  have lower := Semaphore.run_level pid passed
  have room : n < tyObuflen := by
    unfold Semaphore.Sound at sound
    unfold Semaphore.level at level
    omega
  refine ⟨inv.fifo.push room ch, sound, ?_, inv.single.sublist ?_⟩
  · change (m.tyosem.run pid).level + ((n + 1 : Nat) : Int) = tyObuflen
    rw [lower]
    omega
  · exact List.Sublist.append_left List.erase_sublist _

theorem place_writers (inv : Inv m.toOutput n) (passed : pid ∈ m.tyosem.passed) (ch : Int8) :
    pid ∉ writers (place m pid ch).toOutput ∧
      ∀ other ∈ writers (place m pid ch).toOutput, other ∈ writers m.toOutput := by
  have single := List.nodup_append.mp inv.single
  refine ⟨fun member => ?_, fun other member => ?_⟩
  · rcases List.mem_append.mp member with queued | again
    · exact single.2.2 pid queued pid passed rfl
    · exact List.Nodup.not_mem_erase single.2.1 again
  · rcases List.mem_append.mp member with queued | again
    · exact List.mem_append_left _ queued
    · exact List.mem_append_right _ (List.mem_of_mem_erase again)

/-- A process puts characters until it is blocked. -/
theorem put_chars_inv (chs : List Int8) (inv : Inv m.toOutput n)
    (outside : pid ∉ writers m.toOutput) (busy : Busy m.toOutput) :
    ∃ n', Inv (putChars pid chs m).toOutput n' ∧ Busy (putChars pid chs m).toOutput := by
  induction chs generalizing m n with
  | nil =>
      refine ⟨n, ⟨inv.fifo, inv.sound, inv.level, inv.single⟩, fun other member => ?_⟩
      have differ : other ≠ pid := fun same => outside (same ▸ member)
      change Function.update m.writing pid [] other ≠ []
      rw [Function.update_of_ne differ]
      exact busy other member
  | cons ch rest induction =>
      unfold putChars
      dsimp only
      split_ifs with blocked
      · have few : m.tyosem.count - 1 < 0 := by
          unfold Semaphore.wait at blocked
          split_ifs at blocked <;> assumption
        have queued : m.tyosem.wait pid = { m.tyosem with
            count := m.tyosem.count - 1, queue := m.tyosem.queue ++ [pid] } := if_pos few
        have members : (writers { m.toOutput with tyosem := m.tyosem.wait pid }).Perm
            (pid :: writers m.toOutput) := by
          unfold writers
          rw [queued]
          dsimp only
          rw [List.append_assoc]
          exact List.perm_middle
        refine ⟨n, ⟨inv.fifo, Semaphore.wait_sound pid inv.sound, ?_, ?_⟩,
          fun other member => ?_⟩
        · exact (congrArg (· + (n : Int)) (Semaphore.wait_level pid)).trans inv.level
        · exact members.nodup_iff.mpr (List.nodup_cons.mpr ⟨outside, inv.single⟩)
        · change Function.update m.writing pid (ch :: rest) other ≠ []
          by_cases same : other = pid
          · rw [same, Function.update_self]
            exact List.cons_ne_nil ch rest
          · rw [Function.update_of_ne same]
            exact busy other ((List.mem_cons.mp (members.mem_iff.mp member)).resolve_left same)
      · have enough : ¬m.tyosem.count - 1 < 0 := by
          intro few
          rw [Semaphore.wait, if_pos few] at blocked
          exact blocked few
        have granted : m.tyosem.wait pid = { m.tyosem with
            count := m.tyosem.count - 1, passed := m.tyosem.passed ++ [pid] } := if_neg enough
        have members : (writers { m.toOutput with tyosem := m.tyosem.wait pid }).Perm
            (pid :: writers m.toOutput) := by
          unfold writers
          rw [granted]
          dsimp only
          rw [← List.append_assoc]
          exact List.perm_append_singleton _ _
        have waits : Inv { m.toOutput with tyosem := m.tyosem.wait pid } n :=
          ⟨inv.fifo, Semaphore.wait_sound pid inv.sound,
            (congrArg (· + (n : Int)) (Semaphore.wait_level pid)).trans inv.level,
            members.nodup_iff.mpr (List.nodup_cons.mpr ⟨outside, inv.single⟩)⟩
        have passed : pid ∈ (m.tyosem.wait pid).passed := by
          rw [granted]
          exact List.mem_append_right _ (List.mem_singleton_self pid)
        have placed := @place_inv { m with tyosem := m.tyosem.wait pid } n pid waits passed ch
        obtain ⟨away, fewer⟩ :=
          @place_writers { m with tyosem := m.tyosem.wait pid } n pid waits passed ch
        refine induction placed away fun other member => ?_
        have differ : other ≠ pid := fun same => away (same ▸ member)
        exact busy other
          ((List.mem_cons.mp (members.mem_iff.mp (fewer other member))).resolve_left differ)

theorem goes_on_inv (inv : Inv m.toOutput n) (busy : Busy m.toOutput)
    (passed : pid ∈ m.tyosem.passed) :
    ∃ n', Inv (goesOn m pid).toOutput n' ∧ Busy (goesOn m pid).toOutput := by
  unfold goesOn
  split
  · exact ⟨n, inv, busy⟩
  · rename_i ch rest _
    obtain ⟨away, fewer⟩ := place_writers inv passed ch
    exact put_chars_inv rest (place_inv inv passed ch) away fun other member =>
      busy other (fewer other member)

/-- The second loop has sent characters, and leaves the others in the queue. -/
structure Sends (m : Ttycblk) (n : Nat) (sends : Nat × Ttycblk) : Prop where
  fifo : Fifo tyObuflen sends.2.tyobuff sends.2.tyohead sends.2.tyotail (n - sends.1) sends.2.put
    sends.2.sent
  fewer : sends.1 ≤ n
  sem : sends.2.tyosem = m.tyosem
  writing : sends.2.writing = m.writing
  head : sends.2.tyehead = m.tyehead
  tail : sends.2.tyetail = m.tyetail

/-- The characters that are sent are the first ones, as long as there are enough of them. -/
theorem send_output_sends (uspace : Nat) (avail : Int)
    (fifo : Fifo tyObuflen m.tyobuff m.tyohead m.tyotail n m.put m.sent)
    (enough : min uspace avail.toNat ≤ n) : Sends m n (sendOutput uspace avail m) := by
  induction uspace generalizing avail m n with
  | zero => exact ⟨fifo, Nat.zero_le n, rfl, rfl, rfl, rfl⟩
  | succ uspace induction =>
      unfold sendOutput
      split_ifs with some_left
      · obtain ⟨rest, rfl⟩ : ∃ rest, n = rest + 1 := ⟨n - 1, by omega⟩
        have sends := @induction
          { m with
            buffer := m.buffer ++ [m.tyobuff m.tyohead]
            tyohead := advance tyObuflen m.tyohead
            sent := m.sent ++ [m.tyobuff m.tyohead] } rest (avail - 1) fifo.pop (by omega)
        refine ⟨?_, Nat.succ_le_succ sends.fewer, sends.sem, sends.writing, sends.head, sends.tail⟩
        dsimp only
        rw [Nat.add_sub_add_right]
        exact sends.fifo
      · exact ⟨fifo, Nat.zero_le n, rfl, rfl, rfl, rfl⟩

end Queue

section Echo

variable {m m' : Ttycblk}

theorem echoes_advance (head : m.tyehead < tyEbuflen) (tail : m.tyetail < tyEbuflen)
    (some_left : m.tyehead ≠ m.tyetail) :
    echoes { m with tyehead := advance tyEbuflen m.tyehead } + 1 = echoes m := by
  unfold echoes
  dsimp only
  rw [advance_mod head]
  simp only [tyEbuflen] at head tail ⊢
  omega

/-- The first loop takes the echo queue from the space of the UART. -/
theorem send_echo_space (uspace : Nat) (head : m.tyehead < tyEbuflen) (tail : m.tyetail < tyEbuflen) :
    (sendEcho uspace m).1 = uspace - echoes m ∧ (sendEcho uspace m).2.tyehead < tyEbuflen ∧
      (sendEcho uspace m).2.tyetail = m.tyetail := by
  induction uspace generalizing m with
  | zero => exact ⟨(Nat.zero_sub _).symm, head, rfl⟩
  | succ uspace induction =>
      unfold sendEcho
      split_ifs with empty
      · refine ⟨?_, head, rfl⟩
        have none : echoes m = 0 := by
          unfold echoes
          rw [empty, Nat.add_sub_cancel_left, Nat.mod_self]
        rw [none, Nat.sub_zero]
      · obtain ⟨space, inside, same⟩ := @induction
          { m with
            buffer := m.buffer ++ [m.tyebuff m.tyehead]
            tyehead := advance tyEbuflen m.tyehead } (advance_lt head) tail
        refine ⟨?_, inside, same⟩
        have fewer := echoes_advance head tail empty
        rw [space, ← fewer, Nat.add_sub_add_right]
        rfl

/-- The pointers of the echo queue are inside `tyebuff`. -/
def EchoInside (m : Ttycblk) : Prop := m.tyehead < tyEbuflen ∧ m.tyetail < tyEbuflen

/-- A process that writes does not touch the echo queue. -/
theorem put_chars_echo (pid : Int) (chs : List Int8) (m : Ttycblk) :
    (putChars pid chs m).tyehead = m.tyehead ∧ (putChars pid chs m).tyetail = m.tyetail := by
  induction chs generalizing m with
  | nil => exact ⟨rfl, rfl⟩
  | cons ch rest induction =>
      unfold putChars
      dsimp only
      split_ifs
      · exact ⟨rfl, rfl⟩
      · exact induction _

theorem goes_on_echo (m : Ttycblk) (pid : Int) :
    (goesOn m pid).tyehead = m.tyehead ∧ (goesOn m pid).tyetail = m.tyetail := by
  unfold goesOn
  split
  · exact ⟨rfl, rfl⟩
  · exact put_chars_echo pid _ _

end Echo

section Steps

variable {m m' : Ttycblk} {n : Nat}

/-- What holds in every state of a run -/
structure Good (m : Ttycblk) : Prop where
  whole : ∃ n, Inv m.toOutput n ∧ Busy m.toOutput
  echo : EchoInside m

theorem unsent_eq (inv : Inv m.toOutput n) : unsent m = n := by
  have lengths := inv.fifo.lengths
  unfold unsent
  omega

/-- The output interrupt sends no more characters than there are. -/
theorem handle_out_good (good : Good m) (settled : Settled m .interrupt) :
    Good (ttyhandleOut m) := by
  obtain ⟨⟨n, inv, busy⟩, head, tail⟩ := good
  have waiting := unsent_eq inv
  obtain ⟨space, inside, same⟩ := send_echo_space uartFifoSize head tail
  have output := (send_echo_frame uartFifoSize m).2.1
  unfold ttyhandleOut
  split_ifs with held idle
  · exact ⟨⟨n, inv, busy⟩, head, tail⟩
  · exact ⟨⟨n, inv, busy⟩, head, tail⟩
  · have enough : min (sendEcho uartFifoSize m).1
        ((tyObuflen : Int) - (sendEcho uartFifoSize m).2.tyosem.count).toNat ≤ n := by
      rw [show (sendEcho uartFifoSize m).2.tyosem = m.tyosem from
        congrArg Line.Output.tyosem output, space]
      have sound := inv.sound
      have level := inv.level
      unfold Semaphore.Sound at sound
      unfold Semaphore.level at level
      rcases settled.resolve_left held with ran | plenty
      · rw [ran, List.length_nil] at level
        simp only [tyObuflen, uartFifoSize] at level ⊢
        omega
      · omega
    rw [← output] at inv busy
    dsimp only
    have sends := send_output_sends _ _ inv.fifo enough
    generalize sendOutput (sendEcho uartFifoSize m).1
      (tyObuflen - (sendEcho uartFifoSize m).2.tyosem.count) (sendEcho uartFifoSize m).2 =
        after at sends ⊢
    have members : ((after.2.tyosem.signaln after.1).queue ++
        (after.2.tyosem.signaln after.1).passed).Perm
        (writers (sendEcho uartFifoSize m).2.toOutput) := by
      rw [sends.sem]
      exact Semaphore.signaln_members after.1
    refine ⟨⟨n - after.1, ⟨sends.fifo, ?_, ?_, members.nodup_iff.mpr inv.single⟩, ?_⟩, ?_, ?_⟩
    · rw [sends.sem]
      exact Semaphore.signaln_sound inv.sound _
    · have level := inv.level
      have fewer := sends.fewer
      dsimp only
      rw [sends.sem, Semaphore.signaln_level inv.sound]
      omega
    · intro pid member
      dsimp only
      rw [sends.writing]
      exact busy pid (members.mem_iff.mp member)
    · dsimp only
      rw [sends.head]
      exact inside
    · dsimp only
      rw [sends.tail, same]
      exact tail

theorem good_of_frame (good : Good m) (output : m'.toOutput = m.toOutput)
    (head : m'.tyehead = m.tyehead) (tail : m'.tyetail = m.tyetail) : Good m' := by
  refine ⟨?_, ?_, ?_⟩
  · rw [output]
    exact good.whole
  · rw [head]
    exact good.echo.1
  · rw [tail]
    exact good.echo.2

theorem not_writing {pid : Int} (outside : Outside m pid) : pid ∉ writers m.toOutput :=
  fun member => outside (List.mem_append_right _ member)

theorem act_good {event : Event} (good : Good m) (settled : Settled m event)
    (did : act m event = some m') : Good m' := by
  obtain ⟨⟨n, inv, busy⟩, head, tail⟩ := good
  cases event with
  | arrives ch =>
      have handles := handle_in_handles did
      refine ⟨?_, ?_, handles.tail tail⟩
      · rw [handles.output inv.fifo.tail_lt]
        exact ⟨n, inv, busy⟩
      · rw [handles.head]
        exact head
  | getc pid =>
      simp only [act] at did
      split_ifs at did
      obtain rfl := Option.some.inj did
      have same : (ttygetc m pid).1.toOutput = m.toOutput ∧
          (ttygetc m pid).1.toEcho = m.toEcho := by
        unfold ttygetc
        dsimp only
        split_ifs <;> exact ⟨rfl, rfl⟩
      exact good_of_frame ⟨⟨n, inv, busy⟩, head, tail⟩ same.1 (congrArg Echo.tyehead same.2)
        (congrArg Echo.tyetail same.2)
  | reads pid =>
      simp only [act] at did
      split_ifs at did
      obtain rfl := Option.some.inj did
      exact ⟨⟨n, inv, busy⟩, head, tail⟩
  | putc pid ch =>
      simp only [act] at did
      split_ifs at did with outside
      obtain rfl := Option.some.inj did
      have echo := put_chars_echo pid
        (if ch = tyNewline ∧ m.tyocrlf = true then [tyReturn, ch] else [ch]) m
      refine ⟨put_chars_inv _ inv (not_writing outside) busy, ?_, ?_⟩
      · rw [ttyputc, echo.1]
        exact head
      · rw [ttyputc, echo.2]
        exact tail
  | writes pid =>
      simp only [act] at did
      split_ifs at did with passed
      obtain rfl := Option.some.inj did
      have echo := goes_on_echo m pid
      refine ⟨goes_on_inv inv busy passed, ?_, ?_⟩
      · rw [echo.1]
        exact head
      · rw [echo.2]
        exact tail
  | interrupt =>
      obtain rfl := Option.some.inj did
      exact handle_out_good ⟨⟨n, inv, busy⟩, head, tail⟩ settled

theorem started_good (started : Started m) : Good m := by
  obtain ⟨options, tyibuff, tyobuff, tyebuff, rfl⟩ := started
  refine ⟨⟨0, ⟨fifo_start (by decide), rfl, rfl, List.nodup_nil⟩, nofun⟩, ?_, ?_⟩
  · exact (by decide : 0 < tyEbuflen)
  · exact (by decide : 0 < tyEbuflen)

end Steps

section Results

/-- In a run in which the interrupt handler sends no character in the place of one that a released
writer has still to store, the characters are sent once and in order. -/
theorem output_is_delivered {m : Ttycblk} (run : Reached act Started Settled m) : Delivers m := by
  have good : Good m := reached_invariant run (fun _ => started_good) fun _ _ _ => act_good
  obtain ⟨n, inv, _⟩ := good.whole
  rw [Delivers, unsent_eq inv]
  exact inv.fifo

/-- A newline, which `TY_RETURN` goes before -/
theorem output_is_delivered_newline :
    ∃ m, takeEvents act Settled [.putc 5 104, .putc 5 10, .interrupt] (fresh .cooked) = some m ∧
      Delivers m := by
  obtain ⟨m, took⟩ := Option.isSome_iff_exists.mp (show (takeEvents act Settled
    [.putc 5 104, .putc 5 10, .interrupt] (fresh .cooked)).isSome = true by decide)
  exact ⟨m, took, output_is_delivered (take_events (.start (fresh_started _)) took)⟩

/-- While output is held the queue becomes full, and 16 other processes write. Then the interrupt
handler releases them all, and before they run it sends the queue with 16 characters that it has
sent before. -/
theorem output_is_sent_again :
    ¬∀ m, Reached act Started (fun _ _ => True) m → Delivers m := by
  intro always
  have taken : (takeEvents act (fun _ _ => True)
      (.arrives 19 :: List.replicate 64 (.putc 5 97) ++
        (List.range 16).map (fun i => .putc (10 + i) 98) ++
          .arrives 17 :: List.replicate 5 .interrupt) (fresh .cooked)).map
      (fun m => (m.put.length, m.sent.length)) = some (64, 80) := by
    decide +kernel
  obtain ⟨m, took, lengths⟩ := Option.map_eq_some_iff.mp taken
  obtain ⟨put, sent⟩ := Prod.mk.inj lengths
  have order := congrArg List.length (always m (take_events (.start (fresh_started _)) took)).order
  rw [List.length_append, put, sent] at order
  omega

end Results

end Xinu.Tty.Output
