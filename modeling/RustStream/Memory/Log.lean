import RustStream.Lib.Window
import RustStream.Memory.Delivery

/-!
# The publish log of a name

A retaining broker keeps the newest messages of every name within a bound on their number, on their
payload bytes, or on both. Each publish appends its message, takes the next sequence number and
evicts from the front. The log tracks the bytes it holds and the sequence of its oldest message
instead of computing them.

## Main definitions

* `Retention.admits`: the bound.
* `NameLog.push`, `NameLog.replayFrom`: the log.
* `NameLog.Of`: the log of a history.
* `TrackedLog`, `LogState`: the logs of a broker, whose byte counts are right.

## Main results

* `NameLog.Of.push`: a publish keeps the log of its history.
* `retained_window`: what a log holds after any publishes.
-/

namespace RustStream

open List

/-! ## The log -/

/-- What a retaining broker keeps of a name. -/
inductive Retention where
  | messages (limit : ℕ+)
  | bytes (limit : ℕ+)
  | messagesAndBytes (messages bytes : ℕ+)

/-- Whether a name holding `messages` messages of `bytes` payload bytes is within the bound. -/
def Retention.admits (retention : Retention) (messages bytes : ℕ) : Bool :=
  match retention with
  | .messages limit => messages ≤ limit
  | .bytes limit => bytes ≤ limit
  | .messagesAndBytes messageLimit byteLimit => messages ≤ messageLimit && bytes ≤ byteLimit

/-- What bounds a recording log: the harness records without a bound. -/
inductive Budget where
  | bounded (retention : Retention)
  | unbounded

/-- The payload bytes of some messages. -/
def payloadBytes (entries : List DeliveryInner) : ℕ :=
  (entries.map fun entry => entry.payload.length).sum

/-- One name's retained messages. -/
structure NameLog where
  entries : List DeliveryInner
  -- the absolute sequence number of the oldest retained message
  firstSeq : ℕ
  -- retained payload bytes, tracked rather than recomputed
  bytes : ℕ

namespace NameLog

/-- The log before any publish. -/
def empty : NameLog := ⟨[], 0, 0⟩

/-- The position the next publish will take. -/
def nextSeq (log : NameLog) : ℕ :=
  log.firstSeq + log.entries.length

/-- The retained messages from `seq` on, oldest first, each with its position. -/
def replayFrom (log : NameLog) (seq : ℕ) : List (ℕ × DeliveryInner) :=
  (log.entries.zipIdx.drop (seq - log.firstSeq)).map fun (entry, offset) =>
    (log.firstSeq + offset, entry)

/-- Evicts from the front while more than one message is left and the bound does not admit them.
`none` if the tracked bytes were to underflow. -/
def evict (retention : Retention) : List DeliveryInner → ℕ → ℕ → Option NameLog
  | [], firstSeq, bytes => some ⟨[], firstSeq, bytes⟩
  | entry :: entries, firstSeq, bytes =>
    if 1 < (entry :: entries).length ∧
        retention.admits (entry :: entries).length bytes = false then
      if entry.payload.length ≤ bytes then
        evict retention entries (firstSeq + 1) (bytes - entry.payload.length)
      else none
    else some ⟨entry :: entries, firstSeq, bytes⟩

/-- Appends a message, evicts what the budget no longer admits, and returns its position. -/
def push (log : NameLog) (entry : DeliveryInner) (budget : Budget) : Option (ℕ × NameLog) :=
  match budget with
  | .bounded retention =>
    (evict retention (log.entries ++ [entry]) log.firstSeq
      (log.bytes + entry.payload.length)).map fun log' => (log.nextSeq, log')
  | .unbounded =>
    some (log.nextSeq,
      ⟨log.entries ++ [entry], log.firstSeq, log.bytes + entry.payload.length⟩)

/-- Publishes one message after the other and lists the positions they were given. -/
def pushAll (budget : Budget) : NameLog → List DeliveryInner → Option (List ℕ × NameLog)
  | log, [] => some ([], log)
  | log, entry :: entries => do
    let (seq, log) ← log.push entry budget
    let (seqs, log) ← pushAll budget log entries
    return (seq :: seqs, log)

end NameLog

/-! ## The bound -/

/-- Whether the bound admits these messages. -/
def Retention.holds (retention : Retention) (entries : List DeliveryInner) : Bool :=
  retention.admits entries.length (payloadBytes entries)

theorem payloadBytes_append (entries entries' : List DeliveryInner) :
    payloadBytes (entries ++ entries') = payloadBytes entries + payloadBytes entries' := by
  simp [payloadBytes]

theorem payloadBytes_cons (entry : DeliveryInner) (entries : List DeliveryInner) :
    payloadBytes (entry :: entries) = entry.payload.length + payloadBytes entries := by
  simp [payloadBytes]

theorem Retention.admits_mono {retention : Retention} {messages messages' bytes bytes' : ℕ}
    (hmessages : messages' ≤ messages) (hbytes : bytes' ≤ bytes)
    (h : retention.admits messages bytes = true) : retention.admits messages' bytes' = true := by
  cases retention with
  | messages limit | bytes limit =>
    simp only [admits, decide_eq_true_eq] at h ⊢
    omega
  | messagesAndBytes messageLimit byteLimit =>
    simp only [admits, Bool.and_eq_true, decide_eq_true_eq] at h ⊢
    omega

/-- The bound admits every part of what it admits. -/
theorem Retention.holds_of_sublist (retention : Retention) (entries entries' : List DeliveryInner)
    (hsub : entries'.Sublist entries) (h : retention.holds entries = true) :
    retention.holds entries' = true :=
  admits_mono hsub.length_le (List.Sublist.sum_le_sum (hsub.map _) (by simp)) h

theorem Retention.holds_nil (retention : Retention) : retention.holds [] = true := by
  cases retention <;> simp [holds, admits, payloadBytes]

/-! ## What a log holds -/

namespace NameLog

variable {retention : Retention} {history : List DeliveryInner} {log : NameLog}

/-- The log of a history: its window, with the bytes and the first sequence number it stands for. -/
structure Of (retention : Retention) (history : List DeliveryInner) (log : NameLog) : Prop where
  keeps : Window.Keeps retention.holds history log.entries
  bytes_eq : log.bytes = payloadBytes log.entries
  seq_eq : log.firstSeq + log.entries.length = history.length

/-- The eviction trims, never underflows, and moves the first sequence number along. -/
theorem evict_eq (entries : List DeliveryInner) (firstSeq : ℕ) :
    ∃ log, evict retention entries firstSeq (payloadBytes entries) = some log ∧
      log.entries = Window.trim retention.holds entries ∧ log.bytes = payloadBytes log.entries ∧
      log.firstSeq + log.entries.length = firstSeq + entries.length := by
  induction entries generalizing firstSeq with
  | nil => exact ⟨_, rfl, rfl, rfl, rfl⟩
  | cons entry entries ih =>
    have hmore : 1 < (entry :: entries).length ↔ entries ≠ [] := by
      rw [length_cons, Nat.lt_add_left_iff_pos, length_pos_iff]
    have hcond : (1 < (entry :: entries).length ∧
        retention.admits (entry :: entries).length (payloadBytes (entry :: entries)) = false) ↔
        entries ≠ [] ∧ retention.holds (entry :: entries) = false :=
      and_congr hmore Iff.rfl
    rw [evict, Window.trim]
    by_cases hdrop : entries ≠ [] ∧ retention.holds (entry :: entries) = false
    · obtain ⟨log, hlog, hentries, hbytes, hseq⟩ := ih (firstSeq + 1)
      have hle : entry.payload.length ≤ payloadBytes (entry :: entries) := by
        rw [payloadBytes_cons]
        exact Nat.le_add_right _ _
      rw [if_pos hdrop, if_pos (hcond.mpr hdrop), if_pos hle, payloadBytes_cons,
        Nat.add_sub_cancel_left]
      refine ⟨log, hlog, hentries, hbytes, ?_⟩
      rw [hseq, length_cons]
      omega
    · rw [if_neg hdrop, if_neg fun h => hdrop (hcond.mp h)]
      exact ⟨_, rfl, rfl, rfl, rfl⟩

theorem of_empty (retention : Retention) : Of retention [] empty :=
  ⟨Window.keeps_nil _, rfl, rfl⟩

/-- **A publish keeps the log of its history**, and is given its place in it. -/
theorem Of.push (h : Of retention history log) (entry : DeliveryInner) :
    ∃ log', log.push entry (.bounded retention) = some (history.length, log') ∧
      Of retention (history ++ [entry]) log' := by
  have hbytes : log.bytes + entry.payload.length = payloadBytes (log.entries ++ [entry]) := by
    rw [payloadBytes_append, h.bytes_eq]
    simp [payloadBytes]
  obtain ⟨log', hlog', hentries, hbytes', hseq⟩ :=
    @evict_eq retention (log.entries ++ [entry]) log.firstSeq
  refine ⟨log', ?_, ?_, hbytes', ?_⟩
  · rw [NameLog.push, hbytes, hlog', nextSeq, h.seq_eq]
    rfl
  · rw [hentries]
    exact h.keeps.push retention.holds_of_sublist entry
  · rw [hseq, length_append, length_append, ← h.seq_eq]
    exact (Nat.add_assoc _ _ _).symm

theorem Of.pushAll (h : Of retention history log) (entries : List DeliveryInner) :
    ∃ log', NameLog.pushAll (.bounded retention) log entries
        = some (List.range' history.length entries.length, log') ∧
      Of retention (history ++ entries) log' := by
  induction entries generalizing history log with
  | nil =>
    refine ⟨log, rfl, ?_⟩
    rwa [append_nil]
  | cons entry entries ih =>
    obtain ⟨log₁, hpush, h₁⟩ := h.push entry
    obtain ⟨log₂, hrest, h₂⟩ := ih h₁
    refine ⟨log₂, ?_, ?_⟩
    · rw [NameLog.pushAll, hpush]
      simp only [Option.bind_eq_bind, Option.bind_some, hrest]
      rw [length_append, length_cons, length_nil]
      rfl
    · rwa [append_assoc] at h₂

/-- A replay is the part of the numbered window at or past the position. -/
theorem replayFrom_eq (log : NameLog) (seq : ℕ) :
    log.replayFrom seq = (Window.number log.firstSeq log.entries).filter fun p => seq ≤ p.1 := by
  rw [Window.filter_number, replayFrom, map_drop]
  congr 1
  exact Window.map_zipIdx log.firstSeq 0 log.entries

/-- The numbered window is the numbered history from the first sequence number on. -/
theorem Of.number_eq (h : Of retention history log) : Window.number log.firstSeq log.entries
      = (Window.number 0 history).filter fun p => log.firstSeq ≤ p.1 := by
  have hdrop : history.length - log.entries.length = log.firstSeq := by
    have hseq := h.seq_eq
    omega
  rw [Window.filter_number, Window.drop_number, Nat.sub_zero, Nat.zero_add, ← hdrop,
    ← suffix_iff_eq_drop.mp h.keeps.suffix]

end NameLog

/-! ## The logs of a broker -/

/-- A log whose tracked bytes are the bytes it holds. -/
structure TrackedLog extends NameLog where
  tracked : bytes = payloadBytes entries

namespace TrackedLog

/-- The log of a name nothing was published to. -/
def empty : TrackedLog := ⟨.empty, rfl⟩

/-- A publish to a tracked log succeeds and leaves it tracked. -/
theorem exists_push (log : TrackedLog) (entry : DeliveryInner) (budget : Budget) :
    ∃ log', log.toNameLog.push entry budget = some (log.nextSeq, log') ∧
      log'.bytes = payloadBytes log'.entries := by
  have hbytes : log.bytes + entry.payload.length = payloadBytes (log.entries ++ [entry]) := by
    rw [payloadBytes_append, log.tracked]
    simp [payloadBytes]
  cases budget with
  | bounded retention =>
    obtain ⟨log', hlog', -, hbytes', -⟩ :=
      @NameLog.evict_eq retention (log.entries ++ [entry]) log.firstSeq
    refine ⟨log', ?_, hbytes'⟩
    rw [NameLog.push, hbytes, hlog']
    rfl
  | unbounded => exact ⟨_, rfl, hbytes⟩

/-- The log after a publish. -/
def push (log : TrackedLog) (entry : DeliveryInner) (budget : Budget) : TrackedLog :=
  match h : log.toNameLog.push entry budget with
  | some (_, log') => ⟨log', by
      obtain ⟨log'', hpush, htracked⟩ := log.exists_push entry budget
      rw [hpush] at h
      cases h
      exact htracked⟩
  | none => log

theorem push_eq (log : TrackedLog) (entry : DeliveryInner) (budget : Budget) :
    log.toNameLog.push entry budget = some (log.nextSeq, (log.push entry budget).toNameLog) := by
  obtain ⟨log', hpush, -⟩ := log.exists_push entry budget
  have hlog : (log.push entry budget).toNameLog = log' := by
    unfold push
    split
    · rename_i seq log'' h
      rw [hpush] at h
      cases h
      rfl
    · rename_i h
      rw [hpush] at h
      cases h
  rw [hpush, hlog]

end TrackedLog

/-- The broker's publish log: absent, or one log for each name something was recorded under. -/
inductive LogState where
  | discarding
  | recording (budget : Budget) (names : String → Option TrackedLog)

namespace LogState

/-- Records a message and returns its sequence number under its name. -/
def append (state : LogState) (shared : DeliveryInner) : ℕ × LogState :=
  match state with
  | .discarding => (0, .discarding)
  | .recording budget names =>
    let log := (names shared.name).getD .empty
    (log.nextSeq,
      .recording budget (Function.update names shared.name (some (log.push shared budget))))

/-- The log of a name, if anything was recorded under it. -/
def name (state : LogState) (name : String) : Option TrackedLog :=
  match state with
  | .discarding => none
  | .recording _ names => names name

/-- Drops everything recorded under a name. -/
def forget (state : LogState) (name : String) : LogState :=
  match state with
  | .discarding => .discarding
  | .recording budget names => .recording budget (Function.update names name none)

variable (state : LogState)

theorem name_append_of_ne {shared : DeliveryInner} {name : String}
    (h : name ≠ shared.name) : (state.append shared).2.name name = state.name name := by
  rcases state with _ | ⟨budget, names⟩
  · rfl
  · exact Function.update_of_ne h _ _

theorem name_forget_self (name : String) : (state.forget name).name name = none := by
  rcases state with _ | ⟨budget, names⟩
  · rfl
  · exact Function.update_self name _ _

theorem name_forget_of_ne {name other : String} (h : other ≠ name) :
    (state.forget name).name other = state.name other := by
  rcases state with _ | ⟨budget, names⟩
  · rfl
  · exact Function.update_of_ne h _ _

end LogState

/-- **What a log holds.** After any publishes to a name, whatever their payloads: every publish was
given its index as its sequence number and the tracked bytes never underflowed; the log holds the
longest end of the history the bound admits, or the newest message alone where even that one is too
wide; it tracks the bytes it holds and the sequence of its oldest message; and a replay from `s`
gives the retained messages at or past `s`, in order, each with its own sequence number. -/
theorem retained_window (retention : Retention) (history : List DeliveryInner) :
    ∃ log, NameLog.pushAll (.bounded retention) .empty history
        = some (List.range history.length, log) ∧
      log.entries <:+ history ∧ (history ≠ [] → log.entries ≠ []) ∧
      ((retention.admits log.entries.length (payloadBytes log.entries) = true ∧
          ∀ s, s <:+ history → retention.admits s.length (payloadBytes s) = true →
            s.length ≤ log.entries.length) ∨
        ∃ newest, history.getLast? = some newest ∧ log.entries = [newest] ∧
          retention.admits 1 newest.payload.length = false) ∧
      log.bytes = payloadBytes log.entries ∧
      log.firstSeq + log.entries.length = history.length ∧
      ∀ seq, log.replayFrom seq
        = (Window.number 0 history).filter fun p => log.firstSeq ≤ p.1 && seq ≤ p.1 := by
  obtain ⟨log, hpush, hof⟩ := (NameLog.of_empty retention).pushAll history
  rw [List.nil_append] at hof
  refine ⟨log, ?_, hof.keeps.suffix, hof.keeps.nonempty, ?_, hof.bytes_eq, hof.seq_eq, ?_⟩
  · rw [hpush, List.range_eq_range']
    rfl
  · by_cases hok : retention.holds log.entries = true
    · exact Or.inl ⟨hok, fun s hs hs_ok => hof.keeps.longest hs hs_ok⟩
    · have hrefused := Bool.of_not_eq_true hok
      obtain ⟨newest, hlast, hentries⟩ := hof.keeps.newest retention.holds_nil hrefused
      refine Or.inr ⟨newest, hlast, hentries, ?_⟩
      rw [hentries] at hrefused
      exact hrefused
  · intro seq
    rw [NameLog.replayFrom_eq, hof.number_eq, List.filter_filter]
    congr 1
    funext p
    exact Bool.and_comm _ _

end RustStream
