import Zmtp.Frame.Scanner

namespace Zmtp

namespace Buffer

variable {b : Buffer}

theorem fill_eq (b : Buffer) (input : Bytes) :
    b.fill input =
      ⟨(input.take b.room).reverse ++ b.recent, b.room - input.length,
        b.beyond.drop (min b.room input.length)⟩ := by
  have h : (input.take b.room).length ≤ b.room := List.length_take_le b.room input
  have hp := peek_deposit (b := b) h
  simp only [fill, count, room_deposit, Nat.min_eq_left h, hp, List.reverseAux_eq]
  refine congr (congr (congrArg Buffer.mk rfl) ?_) ?_
  · rw [List.length_take]
    omega
  · rw [deposit, List.take_of_length_le h, List.drop_left, List.length_take]

theorem fill_append (b : Buffer) (x y : Bytes) : b.fill (x ++ y) = (b.fill x).fill y := by
  simp only [fill_eq, List.take_append, List.reverse_append, List.append_assoc, List.length_append,
    List.drop_drop]
  refine congr (congr (congrArg Buffer.mk rfl) ?_) (congrArg (fun n => b.beyond.drop n) ?_)
  · omega
  · omega

end Buffer

/-- The same scan of an input that goes on. -/
def Scan.extend (c : Scan) (more : Bytes) : Scan := { c with rest := c.rest ++ more }

/-- The same scan after another that asked for storage. -/
def Scan.after (asked : List Nat) (c : Scan) : Scan := { c with requests := asked ++ c.requests }

namespace Scanner

variable {s s' : Scanner} {a rest : Bytes} {asked : List Nat} {p : Part} {fault : WireFault}

theorem runBody_of_room {more : Bool} {buffer : Buffer} (h : buffer.room ≤ a.length) :
    s.runBody more buffer a =
      ⟨{ s with phase := .head (.start s.revision) },
        .ok (some (.ofMore (buffer.fill a).bytes more)), a.drop buffer.room, []⟩ := by
  rw [runBody, if_pos]
  rw [Buffer.room_fill, Nat.sub_eq_zero_of_le h]

theorem runBody_of_lt {more : Bool} {buffer : Buffer} (h : a.length < buffer.room) :
    s.runBody more buffer a =
      ⟨{ s with phase := .body more (buffer.fill a) }, .ok none, [], []⟩ := by
  rw [runBody, if_neg, List.drop_of_length_le (Nat.le_of_lt h)]
  rw [Buffer.room_fill]
  omega

theorem runBody_append_of_lt {more : Bool} {buffer : Buffer} (h : a.length < buffer.room)
    (b : Bytes) :
    s.runBody more buffer (a ++ b) = s.runBody more (buffer.fill a) b := by
  have hr : (buffer.fill a).room = buffer.room - a.length := Buffer.room_fill ..
  have hd : (a ++ b).drop buffer.room = b.drop (buffer.fill a).room := by
    rw [hr, List.drop_append, List.drop_of_length_le (Nat.le_of_lt h), List.nil_append]
  simp only [runBody, Buffer.fill_append, hd]

theorem runBody_append_of_room {more : Bool} {buffer : Buffer} (h : buffer.room ≤ a.length)
    (b : Bytes) :
    s.runBody more buffer (a ++ b) = (s.runBody more buffer a).extend b := by
  have h' : buffer.room ≤ (a ++ b).length := by
    rw [List.length_append]
    omega
  rw [runBody_of_room h, runBody_of_room h', Scan.extend, Buffer.bytes_fill, Buffer.bytes_fill,
    List.take_append_of_le_length h, List.drop_append_of_le_length h]

@[simp] theorem requests_runBody (s : Scanner) (more : Bool) (buffer : Buffer) (input : Bytes) :
    (s.runBody more buffer input).requests = [] := by
  rw [runBody]
  split <;> rfl

theorem runHead_phase (s : Scanner) (phase : Phase) (reader : HeadReader) (input : Bytes) :
    { s with phase }.runHead reader input = s.runHead reader input := by
  induction input generalizing reader with
  | nil => rfl
  | cons b input ih =>
    rw [runHead, runHead]
    cases reader.push s.limit b with
    | error fault => rfl
    | ok step =>
      cases step with
      | pending next => exact ih next
      | done head => rfl

theorem runHead_append {reader : HeadReader} (h : (s.runHead reader a).outcome ≠ .ok none)
    (b : Bytes) : s.runHead reader (a ++ b) = (s.runHead reader a).extend b := by
  induction a generalizing reader with
  | nil => exact absurd rfl h
  | cons x a ih =>
    rw [List.cons_append, runHead, runHead]
    rw [runHead] at h
    cases hp : reader.push s.limit x with
    | error fault => rfl
    | ok step =>
      rw [hp] at h
      cases step with
      | pending next => exact ih h
      | done head =>
        by_cases hr : (Buffer.new head.size).room ≤ a.length
        · simp only [runBody_append_of_room hr]
          rfl
        · rw [Nat.not_le] at hr
          exact absurd (by simp only [runBody_of_lt hr]) h

theorem runHead_append_of_none {reader : HeadReader}
    (h : (s.runHead reader a).outcome = .ok none) (b : Bytes) :
    s.runHead reader (a ++ b) =
      ((s.runHead reader a).scanner.run b).after (s.runHead reader a).requests := by
  induction a generalizing reader with
  | nil => exact (s.runHead_phase (.head reader) reader b).symm
  | cons x a ih =>
    rw [List.cons_append, runHead, runHead]
    rw [runHead] at h
    cases hp : reader.push s.limit x with
    | error fault =>
      rw [hp] at h
      cases h
    | ok step =>
      rw [hp] at h
      cases step with
      | pending next => exact ih h
      | done head =>
        by_cases hr : (Buffer.new head.size).room ≤ a.length
        · simp only [runBody_of_room hr] at h
          cases h
        · rw [Nat.not_le] at hr
          simp only [runBody_append_of_lt hr,
            runBody_of_lt hr]
          change _ = Scan.after [head.size] (s.runBody head.more _ b)
          rw [Scan.after, requests_runBody, List.append_nil]

theorem rest_run_of_none (h : (s.run a).outcome = .ok none) : (s.run a).rest = [] := by
  have hbody {s : Scanner} {more : Bool} {buffer : Buffer} {a : Bytes}
      (h : (s.runBody more buffer a).outcome = .ok none) : (s.runBody more buffer a).rest = [] := by
    by_cases hr : buffer.room ≤ a.length
    · rw [runBody_of_room hr] at h
      cases h
    · rw [runBody_of_lt (Nat.not_le.1 hr)]
  rw [run] at h ⊢
  cases hph : s.phase with
  | body more buffer =>
    simp only [hph] at h ⊢
    exact hbody h
  | head reader =>
    simp only [hph] at h ⊢
    clear hph
    induction a generalizing reader with
    | nil => rfl
    | cons x a ih =>
      rw [runHead] at h ⊢
      cases hp : reader.push s.limit x with
      | error fault =>
        rw [hp] at h
        cases h
      | ok step =>
        rw [hp] at h
        cases step with
        | pending next => exact ih next h
        | done head => exact hbody h

theorem run_append (h : (s.run a).outcome ≠ .ok none) (b : Bytes) :
    s.run (a ++ b) = (s.run a).extend b := by
  rw [run] at h
  rw [run, run]
  cases hph : s.phase with
  | head reader =>
    simp only [hph] at h
    exact runHead_append h b
  | body more buffer =>
    simp only [hph] at h
    by_cases hr : buffer.room ≤ a.length
    · exact runBody_append_of_room hr b
    · exact absurd (by rw [runBody_of_lt (Nat.not_le.1 hr)]) h

theorem run_append_of_none (h : (s.run a).outcome = .ok none) (b : Bytes) :
    s.run (a ++ b) = ((s.run a).scanner.run b).after (s.run a).requests := by
  rw [run] at h
  rw [run, run.eq_1 s a]
  cases hph : s.phase with
  | head reader =>
    simp only [hph] at h
    exact runHead_append_of_none h b
  | body more buffer =>
    simp only [hph] at h
    by_cases hr : buffer.room ≤ a.length
    · rw [runBody_of_room hr] at h
      cases h
    · rw [Nat.not_le] at hr
      simp only [runBody_append_of_lt hr, runBody_of_lt hr]
      change _ = Scan.after [] (s.runBody more _ b)
      rw [Scan.after, List.nil_append]

theorem phase_of_run (h : s.run a = ⟨s', .ok (some p), rest, asked⟩) :
    s'.phase = .head (.start s'.revision) := by
  have hbody {s : Scanner} {more : Bool} {buffer : Buffer} {a : Bytes}
      (h : (s.runBody more buffer a).outcome = .ok (some p)) :
      (s.runBody more buffer a).scanner.phase =
        .head (.start (s.runBody more buffer a).scanner.revision) := by
    by_cases hr : buffer.room ≤ a.length
    · rw [runBody_of_room hr]
    · rw [runBody_of_lt (Nat.not_le.1 hr)] at h
      cases h
  have hrun : (s.run a).outcome = .ok (some p) →
      (s.run a).scanner.phase = .head (.start (s.run a).scanner.revision) := by
    rw [run]
    cases hph : s.phase with
    | body more buffer => exact hbody
    | head reader =>
      simp only
      clear hph h
      induction a generalizing reader with
      | nil =>
        intro hp
        cases hp
      | cons x a ih =>
        rw [runHead]
        cases reader.push s.limit x with
        | error fault =>
          intro hp
          cases hp
        | ok step =>
          cases step with
          | pending next => exact ih next
          | done head => exact hbody
  rw [h] at hrun
  exact hrun rfl

theorem drainFrom_eq (s : Scanner) (input : Bytes) (parts : List Part) (requests : List Nat) :
    drainFrom parts requests s input =
      { s.drain input with
        parts := parts.reverse ++ (s.drain input).parts
        requests := requests.reverse ++ (s.drain input).requests } := by
  induction hn : input.length + s.weight using Nat.strongRecOn
      generalizing s input parts requests with
  | ind n ih =>
    rw [drain, drainFrom, drainFrom.eq_1 [] []]
    split
    · simp
    · simp
    · next s' p rest asked hr =>
      have hlt := load_run hr
      rw [ih _ (hn ▸ hlt) s' rest (p :: parts) _ rfl, ih _ (hn ▸ hlt) s' rest [p] _ rfl]
      simp [List.reverseAux_eq]

theorem drain_of_error (h : s.run a = ⟨s', .error fault, rest, asked⟩) :
    s.drain a = ⟨s', [], some fault, a, asked⟩ := by
  rw [drain, drainFrom]
  split
  · next h' =>
    cases h.symm.trans h'
    simp [List.reverseAux_eq]
  · next h' => cases h.symm.trans h'
  · next h' => cases h.symm.trans h'

theorem drain_of_none (h : s.run a = ⟨s', .ok none, rest, asked⟩) :
    s.drain a = ⟨s', [], none, rest, asked⟩ := by
  rw [drain, drainFrom]
  split
  · next h' => cases h.symm.trans h'
  · next h' =>
    cases h.symm.trans h'
    simp [List.reverseAux_eq]
  · next h' => cases h.symm.trans h'

theorem drain_of_some (h : s.run a = ⟨s', .ok (some p), rest, asked⟩) :
    s.drain a =
      { s'.drain rest with
        parts := p :: (s'.drain rest).parts
        requests := asked ++ (s'.drain rest).requests } := by
  rw [drain, drainFrom]
  split
  · next h' => cases h.symm.trans h'
  · next h' => cases h.symm.trans h'
  · next h' =>
    cases h.symm.trans h'
    rw [drainFrom_eq]
    simp [List.reverseAux_eq]

/-- Input may be drained piece by piece. -/
theorem drain_append (h : (s.drain a).fault = none) (b : Bytes) :
    ∃ rest, s.drain (a ++ b) =
      { (s.drain a).state.drain b with
        parts := (s.drain a).parts ++ ((s.drain a).state.drain b).parts
        requests := (s.drain a).requests ++ ((s.drain a).state.drain b).requests
        rest } := by
  -- a body that needs no more input is scanned without any, which lowers the weight alone
  induction hn : a.length + s.weight using Nat.strongRecOn generalizing s a with
  | ind n ih =>
    cases hr : s.run a with
    | mk s' outcome rest asked =>
      cases outcome with
      | error fault =>
        rw [drain_of_error hr] at h
        cases h
      | ok part =>
        cases part with
        | none =>
          have happ := run_append_of_none (a := a) (by rw [hr]) b
          rw [hr] at happ
          rw [drain_of_none hr]
          simp only
          cases hb : s'.run b with
          | mk s'' outcome rest' asked' =>
            rw [hb] at happ
            cases outcome with
            | error fault =>
              rw [drain_of_error happ, drain_of_error hb]
              exact ⟨_, rfl⟩
            | ok part =>
              cases part with
              | none =>
                rw [drain_of_none happ, drain_of_none hb]
                exact ⟨_, rfl⟩
              | some p =>
                rw [drain_of_some happ, drain_of_some hb]
                exact ⟨_, by simp only [List.nil_append, List.append_assoc]; rfl⟩
        | some p =>
          have happ := run_append (a := a) (by rw [hr]; nofun) b
          rw [hr] at happ
          have hd := drain_of_some hr
          rw [hd] at h
          obtain ⟨rest', he⟩ := ih _ (hn ▸ load_run hr) h rfl
          rw [drain_of_some happ, hd, he]
          exact ⟨rest', by simp only [List.cons_append, List.append_assoc]⟩

theorem drain_append_of_fault (h : (s.drain a).fault = some fault) (b : Bytes) :
    s.drain (a ++ b) = { s.drain a with rest := (s.drain a).rest ++ b } := by
  induction hn : a.length + s.weight using Nat.strongRecOn generalizing s a with
  | ind n ih =>
    cases hr : s.run a with
    | mk s' outcome rest asked =>
      cases outcome with
      | error fault =>
        have happ := run_append (a := a) (by rw [hr]; nofun) b
        rw [hr] at happ
        rw [drain_of_error happ, drain_of_error hr]
      | ok part =>
        cases part with
        | none =>
          rw [drain_of_none hr] at h
          cases h
        | some p =>
          have happ := run_append (a := a) (by rw [hr]; nofun) b
          rw [hr] at happ
          have hd := drain_of_some hr
          rw [hd] at h
          rw [drain_of_some happ, hd, ih _ (hn ▸ load_run hr) h rfl]

theorem parts_drain_prefix (s : Scanner) {a b : Bytes} (h : a <+: b) :
    (s.drain a).parts <+: (s.drain b).parts := by
  obtain ⟨c, rfl⟩ := h
  cases hf : (s.drain a).fault with
  | none =>
    obtain ⟨rest, he⟩ := drain_append hf c
    rw [he]
    exact List.prefix_append ..
  | some fault =>
    simp only [drain_append_of_fault hf, List.prefix_rfl]

theorem fault_drain_of_prefix {b : Bytes} (h : a <+: b) (hb : (s.drain b).fault = none) :
    (s.drain a).fault = none := by
  obtain ⟨c, rfl⟩ := h
  cases hf : (s.drain a).fault with
  | none => rfl
  | some fault =>
    rw [drain_append_of_fault hf, hf] at hb
    cases hb

theorem revision_runBody (s : Scanner) (more : Bool) (buffer : Buffer) (input : Bytes) :
    (s.runBody more buffer input).scanner.revision = s.revision := by
  rw [runBody]
  split <;> rfl

theorem revision_runHead (s : Scanner) (reader : HeadReader) (input : Bytes) :
    (s.runHead reader input).scanner.revision = s.revision := by
  induction input generalizing reader with
  | nil => rfl
  | cons b input ih =>
    rw [runHead]
    split
    · rfl
    · exact ih _
    · exact revision_runBody ..

/-- The frames of a stream are all laid out alike. -/
@[simp] theorem revision_run (s : Scanner) (input : Bytes) :
    (s.run input).scanner.revision = s.revision := by
  rw [run]
  split
  · exact revision_runHead ..
  · exact revision_runBody ..

end Scanner

end Zmtp
