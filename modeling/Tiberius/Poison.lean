import Tiberius.Guard

/-!
Message order on the wire. A message whose last packet has not been written
whole must not be followed by the first packet of another one; the poison flag
is there to reject whatever would. It does so in every run that drops no bulk
request after packets of it went out: the flag is clear between the calls of a
bulk request, so such a drop leaves an open message on a usable connection.
-/

namespace Tiberius

open Reading

/-- The packet that ends a message is on the wire whole. -/
def Complete (frames : List Frame) (message : ℕ) : Prop :=
  ∃ frame ∈ frames, frame.message = message ∧ frame.last = true ∧ frame.sent = frame.size

/-- No first packet of a message is on the wire behind a message that is not
complete. -/
def Orderly (frames : List Frame) : Prop :=
  ∀ before frame after, frames = before ++ frame :: after → 0 < frame.sent →
    (∀ earlier ∈ before, earlier.message ≠ frame.message) →
      ∀ earlier ∈ before, Complete before earlier.message

instance (frames : List Frame) (message : ℕ) : Decidable (Complete frames message) :=
  inferInstanceAs (Decidable (∃ frame ∈ frames, _))

theorem Complete.append {frames : List Frame} {message : ℕ} (hcomplete : Complete frames message)
    (more : List Frame) : Complete (frames ++ more) message := by
  obtain ⟨frame, hframe, hrest⟩ := hcomplete
  exact ⟨frame, List.mem_append_left more hframe, hrest⟩

/-- Frames of one message behind orderly ones: only the first of them can be the
first packet of its message. -/
theorem Orderly.append {frames more : List Frame} {message : ℕ} (horder : Orderly frames)
    (hmessage : ∀ frame ∈ more, frame.message = message)
    (hfirst : more ≠ [] → (∀ frame ∈ frames, frame.message ≠ message) →
      ∀ frame ∈ frames, Complete frames frame.message) : Orderly (frames ++ more) := by
  intro before frame after hsplit hsent hnew
  rcases List.append_eq_append_iff.mp hsplit with ⟨middle, hbefore, hmore⟩ | ⟨middle, hframes, htail⟩
  · have hframe : frame.message = message := by
      refine hmessage frame ?_
      rw [hmore]
      exact List.mem_append_right middle List.mem_cons_self
    have hmiddle : middle = [] := by
      refine List.eq_nil_iff_forall_not_mem.mpr fun earlier hearlier => ?_
      have hsame : earlier.message = message := by
        refine hmessage earlier ?_
        rw [hmore]
        exact List.mem_append_left _ hearlier
      refine hnew earlier ?_ (by rw [hsame, hframe])
      rw [hbefore]
      exact List.mem_append_right frames hearlier
    subst hmiddle
    rw [List.append_nil] at hbefore
    rw [hbefore] at hnew ⊢
    refine hfirst ?_ fun earlier hearlier => ?_
    · rw [hmore]
      exact List.cons_ne_nil frame after
    · rw [← hframe]
      exact hnew earlier hearlier
  · cases middle with
    | nil =>
      rw [List.append_nil] at hframes
      rw [List.nil_append] at htail
      have hframe : frame.message = message := by
        refine hmessage frame ?_
        rw [← htail]
        exact List.mem_cons_self
      rw [← hframes] at hnew ⊢
      refine hfirst ?_ fun earlier hearlier => ?_
      · rw [← htail]
        exact List.cons_ne_nil frame after
      · rw [← hframe]
        exact hnew earlier hearlier
    | cons head tail =>
      rw [List.cons_append, List.cons.injEq] at htail
      obtain ⟨rfl, -⟩ := htail
      exact horder before frame tail hframes hsent hnew

namespace Session

/-- Messages are in order, and one that is not complete belongs to the bulk
request that is open or is left on a connection that rejects every write. -/
structure InOrder (session : Session) : Prop where
  order : Orderly session.conn.transport.frames
  incomplete : ∀ frame ∈ session.conn.transport.frames,
    ¬Complete session.conn.transport.frames frame.message →
      (∃ request, session.bulk = some request ∧ request.message = frame.message) ∨
        session.conn.ensureNotPoisoned ≠ .ok ()

/-- A bulk request is dropped only before packets of it went out, or on a
connection that rejects every write already. -/
def DropsUnsent (session : Session) (action : Action) : Prop :=
  action = .bulkDrop → ∀ request, session.bulk = some request →
    (∀ frame ∈ session.conn.transport.frames, frame.message ≠ request.message) ∨
      session.conn.ensureNotPoisoned ≠ .ok ()

end Session

theorem Writes.rejects {conn after : Connection} {message : ℕ} {frames : List Frame}
    (hwrites : Writes conn message after frames) (hrejects : conn.ensureNotPoisoned ≠ .ok ()) :
    after.ensureNotPoisoned ≠ .ok () := by
  intro hok
  obtain ⟨hclear, hsync⟩ := Connection.not_poisoned_of_guard hok
  refine hrejects (Connection.guard_of_not_poisoned ?_ ?_)
  · cases hflag : conn.poisoned with
    | false => rfl
    | true =>
      rw [hwrites.poisoned_of hflag] at hclear
      cases hclear
  · cases hflag : conn.commandDesync with
    | false => rfl
    | true =>
      rw [hwrites.desync_of hflag] at hsync
      cases hsync

namespace Session

variable {session next : Session} {action : Action} {message : ℕ} {frames : List Frame}

private theorem incomplete_before (hwrites : Writes session.conn message next.conn frames)
    {earlier : ℕ} (hincomplete : ¬Complete next.conn.transport.frames earlier) :
    ¬Complete session.conn.transport.frames earlier := by
  intro hcomplete
  rw [hwrites.frames_eq] at hincomplete
  exact hincomplete (hcomplete.append frames)

private theorem complete_of_closed (hwrites : Writes session.conn message next.conn frames)
    (hclear : next.conn.poisoned = false) (hclosed : Closed frames) (hne : frames ≠ []) :
    Complete next.conn.transport.frames message := by
  rcases hclosed with hnil | ⟨frame, hlast, hmark⟩
  · exact absurd hnil hne
  · have hmem := List.mem_of_getLast? hlast
    refine ⟨frame, ?_, hwrites.message_eq frame hmem, hmark, (hwrites.settled hclear).2 frame hmem⟩
    rw [hwrites.frames_eq]
    exact List.mem_append_right _ hmem

/-- Without a bulk request, what is not complete is left on a connection that
rejects every write. -/
private theorem InOrder.rejects (hin : session.InOrder) (hbulk : session.bulk = none) {frame : Frame}
    (hframe : frame ∈ session.conn.transport.frames)
    (hincomplete : ¬Complete session.conn.transport.frames frame.message) :
    session.conn.ensureNotPoisoned ≠ .ok () := by
  rcases hin.incomplete frame hframe hincomplete with ⟨request, hrequest, -⟩ | hrejects
  · rw [hbulk] at hrequest
    cases hrequest
  · exact hrejects

private theorem InOrder.rejects_or_bulk {request : BulkLoadRequest} (hin : session.InOrder)
    (hbulk : session.bulk = some request) {frame : Frame}
    (hframe : frame ∈ session.conn.transport.frames)
    (hincomplete : ¬Complete session.conn.transport.frames frame.message) :
    request.message = frame.message ∨ session.conn.ensureNotPoisoned ≠ .ok () := by
  rcases hin.incomplete frame hframe hincomplete with ⟨other, hother, hsame⟩ | hrejects
  · rw [hbulk] at hother
    cases hother
    exact Or.inl hsame
  · exact Or.inr hrejects

/-- A frame of a message that is not complete is new, or was there before. -/
private theorem incomplete_cases (hwrites : Writes session.conn message next.conn frames)
    {frame : Frame} (hframe : frame ∈ next.conn.transport.frames)
    (hincomplete : ¬Complete next.conn.transport.frames frame.message) :
    (frame ∈ session.conn.transport.frames ∧
      ¬Complete session.conn.transport.frames frame.message) ∨
      (frame ∈ frames ∧ frame.message = message) := by
  rw [hwrites.frames_eq, List.mem_append] at hframe
  rcases hframe with hbefore | hnew
  · exact Or.inl ⟨hbefore, incomplete_before hwrites hincomplete⟩
  · exact Or.inr ⟨hnew, hwrites.message_eq frame hnew⟩

/-- Frames of the open bulk request keep the order: if one of them is the first
packet of the request, every message before it is complete. -/
private theorem order_of_bulk {request : BulkLoadRequest} (hin : session.InOrder)
    (hbulk : session.bulk = some request)
    (hwrites : Writes session.conn request.message next.conn frames) :
    Orderly next.conn.transport.frames := by
  rw [hwrites.frames_eq]
  refine hin.order.append hwrites.message_eq fun hne hfirst frame hframe => ?_
  by_contra hincomplete
  rcases hin.rejects_or_bulk hbulk hframe hincomplete with hsame | hrejects
  · exact hfirst frame hframe hsame.symm
  · exact hrejects (hwrites.guarded hne)

theorem Effect.inOrder (heffect : Effect session action next) (hin : session.InOrder)
    (hmeets : session.DropsUnsent action) : next.InOrder := by
  cases heffect with
  | message frames hbulk hnext hwrites hclosed =>
    constructor
    · rw [hwrites.frames_eq]
      refine hin.order.append hwrites.message_eq fun hne _ frame hframe => ?_
      by_contra hincomplete
      exact hin.rejects hbulk hframe hincomplete (hwrites.guarded hne)
    · intro frame hframe hincomplete
      refine Or.inr ?_
      rcases incomplete_cases hwrites hframe hincomplete with ⟨hbefore, hearlier⟩ | ⟨hnew, hmessage⟩
      · exact hwrites.rejects (hin.rejects hbulk hbefore hearlier)
      · intro hok
        have hclear := (Connection.not_poisoned_of_guard hok).1
        rw [hmessage] at hincomplete
        exact hincomplete (complete_of_closed hwrites hclear (hclosed hclear)
          (List.ne_nil_of_mem hnew))
  | opens request hbulk hnext hmessage hlt hwrites =>
    constructor
    · rw [hwrites.frames_eq]
      exact hin.order.append hwrites.message_eq fun hne => absurd rfl hne
    · intro frame hframe hincomplete
      refine Or.inr ?_
      rcases incomplete_cases hwrites hframe hincomplete with ⟨hbefore, hearlier⟩ | ⟨hnew, -⟩
      · exact hwrites.rejects (hin.rejects hbulk hbefore hearlier)
      · exact absurd hnew List.not_mem_nil
  | continues frames request left hbulk hnext hmessage hwrites =>
    refine ⟨order_of_bulk hin hbulk hwrites, ?_⟩
    intro frame hframe hincomplete
    rcases incomplete_cases hwrites hframe hincomplete with ⟨hbefore, hearlier⟩ | ⟨-, hsame⟩
    · rcases hin.rejects_or_bulk hbulk hbefore hearlier with hsame | hrejects
      · exact Or.inl ⟨left, hnext, by rw [hmessage, hsame]⟩
      · exact Or.inr (hwrites.rejects hrejects)
    · exact Or.inl ⟨left, hnext, by rw [hmessage, hsame]⟩
  | closes frames request hbulk hnext hwrites hclosed =>
    refine ⟨order_of_bulk hin hbulk hwrites, ?_⟩
    intro frame hframe hincomplete
    refine Or.inr fun hok => ?_
    obtain ⟨hclose, hne⟩ := hclosed hok
    have hcomplete := complete_of_closed hwrites (Connection.not_poisoned_of_guard hok).1 hclose hne
    have hother : frame.message ≠ request.message := by
      intro hsame
      rw [hsame] at hincomplete
      exact hincomplete hcomplete
    rcases incomplete_cases hwrites hframe hincomplete with ⟨hbefore, hearlier⟩ | ⟨-, hsame⟩
    · rcases hin.rejects_or_bulk hbulk hbefore hearlier with hsame | hrejects
      · exact hother hsame.symm
      · exact hwrites.rejects hrejects hok
    · exact hother hsame
  | abandons request haction hbulk hnext =>
    subst hnext
    refine ⟨hin.order, fun frame hframe hincomplete => Or.inr ?_⟩
    rcases hin.rejects_or_bulk hbulk hframe hincomplete with hsame | hrejects
    · rcases hmeets haction request hbulk with hunsent | hrejects
      · exact absurd hsame.symm (hunsent frame hframe)
      · exact hrejects
    · exact hrejects

theorem new_inOrder (inbound : List Packet) (ending : Ending) : (new inbound ending).InOrder where
  order := by
    intro before frame after hsplit
    exact absurd hsplit.symm (List.append_ne_nil_of_right_ne_nil before (List.cons_ne_nil _ _))
  incomplete := fun frame hframe => absurd hframe List.not_mem_nil

theorem reached_inOrder [EncodingRs] {inbound : List Packet} {ending : Ending}
    (hreach : Reached step DropsUnsent (new inbound ending) session) : session.InOrder := by
  have hboth : session.Kept ∧ session.InOrder := by
    refine hreach.keeps (fun session => session.Kept ∧ session.InOrder)
      ⟨new_kept inbound ending, new_inOrder inbound ending⟩ ?_
    intro session action next hinv hmeets hstep
    have heffect := step_effect hinv.1 hstep
    exact ⟨heffect.kept hinv.1, heffect.inOrder hinv.2 hmeets⟩
  exact hboth.2

end Session

/-- Every write on the connection is turned away, and leaves it as it is. -/
def Connection.RejectsWrites (conn : Connection) : Prop :=
  ∃ error, (∀ header item fates, conn.send header item fates = .returned (.error error) conn) ∧
    (∀ header payload fates,
      conn.sendSensitiveLogin header payload fates = .returned (.error error) conn) ∧
    (∀ fates, conn.sendAttention fates = .returned (.error error) conn) ∧
    (∀ (request : BulkLoadRequest) row fates,
      request.send row fates conn = (.returned (.error error) conn, request)) ∧
    ∀ (request : BulkLoadRequest) fates,
      request.finalize fates conn = .returned (.error error) conn

theorem Connection.rejectsWrites {conn : Connection} (hrejects : conn.ensureNotPoisoned ≠ .ok ()) :
    conn.RejectsWrites := by
  cases hguard : conn.ensureNotPoisoned with
  | ok value => exact absurd hguard hrejects
  | error error =>
    refine ⟨error, ?_, ?_, ?_, ?_, ?_⟩
    · intro header item fates
      simp only [send, hguard]
    · intro header payload fates
      simp only [sendSensitiveLogin, hguard]
    · intro fates
      simp only [sendAttention, hguard]
    · intro request row fates
      simp only [BulkLoadRequest.send, hguard]
    · intro request fates
      simp only [BulkLoadRequest.finalize, hguard]

/-- No message starts behind one that is not complete, in any run that drops no
bulk request with packets on the wire: what would start one is rejected. -/
theorem messages_in_order [EncodingRs] {inbound : List Packet} {ending : Ending}
    {session : Session}
    (hreach : Reached Session.step Session.DropsUnsent (.new inbound ending) session) :
    Orderly session.conn.transport.frames ∧
      ∀ frame ∈ session.conn.transport.frames,
        ¬Complete session.conn.transport.frames frame.message →
          (∀ request, session.bulk = some request → request.message ≠ frame.message) →
            session.conn.RejectsWrites := by
  have hin := Session.reached_inOrder hreach
  refine ⟨hin.order, fun frame hframe hincomplete hother => ?_⟩
  rcases hin.incomplete frame hframe hincomplete with ⟨request, hrequest, hsame⟩ | hrejects
  · exact absurd hsame (hother request hrequest)
  · exact Connection.rejectsWrites hrejects

/-- One byte more than a packet holds is buffered, so a packet goes out; the
request is dropped and a batch is sent. -/
def abandonedBulk : List Action :=
  [.bulkNew (.ok []), .bulkSend (.ok (List.replicate 4089 0)) [], .bulkDrop,
    .send (.batch 1) (.ok [0x41, 0]) []]

theorem abandonedBulk_frames :
    (perform (@Session.step .ascii) (.new [] .silent) abandonedBulk).map
        (fun session => session.conn.transport.frames) =
      some [{ message := 0, last := false, size := 4096, sent := 4096 },
        { message := 1, last := true, size := 10, sent := 10 }] := by
  decide +kernel

theorem abandonedBulk_out_of_order :
    ¬∀ (inbound : List Packet) (ending : Ending) (session : Session),
      Reached (@Session.step .ascii) (fun _ _ => True) (.new inbound ending) session →
        Orderly session.conn.transport.frames := by
  intro horder
  obtain ⟨session, hperform, hframes⟩ := Option.map_eq_some_iff.mp abandonedBulk_frames
  have hbad := horder [] .silent session (Reached.of_perform abandonedBulk hperform)
    [{ message := 0, last := false, size := 4096, sent := 4096 }]
    { message := 1, last := true, size := 10, sent := 10 } [] hframes (by decide) (by decide)
  exact absurd (hbad _ List.mem_cons_self) (by decide)

/-- Two batches with a bulk request between them that was dropped before anything of it
went out, and a third batch that breaks off in its second packet. -/
theorem messages_in_order_after_unsent_bulk :
    ∃ session, Reached (@Session.step .ascii) Session.DropsUnsent (.new [] .silent) session ∧
      session.conn.transport.frames.map Frame.message = [0, 0, 2, 3, 3] ∧
      Orderly session.conn.transport.frames ∧ session.conn.RejectsWrites := by
  have hreach : ∃ session,
      Reached (@Session.step .ascii) Session.DropsUnsent (.new [] .silent) session ∧
        session.bulk = none ∧
        session.conn.transport.frames =
          [{ message := 0, last := false, size := 4096, sent := 4096 },
            { message := 0, last := true, size := 20, sent := 20 },
            { message := 2, last := true, size := 10, sent := 10 },
            { message := 3, last := false, size := 4096, sent := 4096 },
            { message := 3, last := true, size := 20, sent := 3 }] := by
    refine ⟨_, .tail (.tail (.tail (.tail (.tail .refl
      ⟨.send (.batch 1) (.ok (List.replicate 4100 0)) [], ?_, rfl⟩)
      ⟨.bulkNew (.ok []), ?_, rfl⟩) ⟨.bulkDrop, ?_, rfl⟩)
      ⟨.send (.batch 2) (.ok [0x41, 0]) [], ?_, rfl⟩)
      ⟨.send (.batch 3) (.ok (List.replicate 4100 0)) [.completes, .dropped 3], ?_, rfl⟩,
      rfl, ?_⟩
    · intro hdrop
      cases hdrop
    · intro hdrop
      cases hdrop
    · intro _ request hrequest
      rw [← Option.some.inj hrequest]
      exact Or.inl (by decide +kernel)
    · intro hdrop
      cases hdrop
    · intro hdrop
      cases hdrop
    · decide +kernel
  obtain ⟨session, hreach, hbulk, hframes⟩ := hreach
  obtain ⟨horder, hincomplete⟩ := @messages_in_order .ascii _ _ _ hreach
  refine ⟨session, hreach, by rw [hframes]; rfl, horder, ?_⟩
  refine hincomplete { message := 3, last := true, size := 20, sent := 3 } ?_ ?_ ?_
  · rw [hframes]
    decide
  · rw [hframes]
    decide
  · intro request hrequest
    rw [hbulk] at hrequest
    cases hrequest

end Tiberius
