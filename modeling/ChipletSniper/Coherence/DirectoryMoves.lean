import ChipletSniper.Coherence.Links

/-!
# What the directory does with one link

The directory takes a message from a cache, tells a sharer what to do, adds a
cache to the sharers and sends a reply.  Each of these keeps the link, with
the belief of the directory changed accordingly.
-/

namespace ChipletSniper.Coherence

variable {Line : Type} {limited : Prop} {view : View} {cache : Llc Line}
variable {down : List (ToCache Line)} {up : List (ToDirectory Line)}

/-! ## Receiving -/

/-- A cache that is not a sharer, whatever else the directory believes. -/
theorem Link.congr_absent {view' : View}
    (link : Link limited view cache down up) (sharer : view.sharer = false)
    (sharer' : view'.sharer = false) (pending' : view'.pending = false)
    (queued : view'.queued = view.queued) :
    Link limited view' cache down up := by
  cases link with
  | absent _ _ cstate ignored requesting =>
      exact .absent sharer' pending' cstate ignored (queued ▸ requesting)
  | pending other => simp [sharer] at other
  | granted other => simp [sharer] at other
  | held other => simp [sharer] at other
  | left other => simp [sharer] at other

theorem Sent.tail_upgrade {answered upgrade : Bool}
    (sent : Sent answered upgrade (.upgradeReq :: up)) :
    upgrade = true ∧ Sent answered false up := by
  cases sent with
  | upgrade => exact ⟨rfl, .none⟩
  | upgradeAnswer data => exact ⟨rfl, .answer data⟩

theorem Sent.tail_answer {answered upgrade : Bool} {data : Data Line}
    (sent : Sent answered upgrade (.wbRep data :: up)) :
    answered = true ∧ Sent false upgrade up := by
  cases sent with
  | answer => exact ⟨rfl, .none⟩
  | answerUpgrade => exact ⟨rfl, .upgrade⟩

/-- What a cache with a copy has sent. -/
theorem Sent.kinds {answered upgrade : Bool} {msg : ToDirectory Line}
    (sent : Sent answered upgrade (msg :: up)) :
    msg = .upgradeReq ∨ ∃ data, msg = .wbRep data := by
  cases sent with
  | answer data => exact Or.inr ⟨data, rfl⟩
  | upgrade => exact Or.inl rfl
  | answerUpgrade data => exact Or.inr ⟨data, rfl⟩
  | upgradeAnswer data => exact Or.inl rfl

theorem reqType_eq_upgrade {msg : ToDirectory Line}
    (request : msg.reqType = some .upgradeReq) :
    msg = .upgradeReq := by
  cases msg with
  | exReq | shReq => cases request
  | upgradeReq => rfl
  | invRep | flushRep | wbRep => cases request

theorem reqType_ne_nullify {msg : ToDirectory Line} {msgType : ReqType}
    (request : msg.reqType = some msgType) :
    msgType ≠ .nullifyReq := by
  rintro rfl
  cases msg <;> cases request

/-- The directory receives a request. -/
theorem Link.receiveRequest {msg : ToDirectory Line} {msgType : ReqType}
    (link : Link limited view cache down (msg :: up))
    (request : msg.reqType = some msgType) :
    view.queued = none ∧ view.pending = false ∧
      (msgType ≠ .upgradeReq → view.sharer = false) ∧
      Link limited { view with queued := some msgType } cache down up := by
  generalize same : msg :: up = received at link
  cases link with
  | absent sharer pending cstate ignored requesting =>
      cases requesting with
      | idle => cases same
      | queued => cases same
      | sent queued request' waits =>
          obtain ⟨rfl, rfl⟩ := List.cons.inj same
          obtain rfl := Option.some.inj (request.symm.trans request')
          exact ⟨queued, pending, fun _ => sharer,
            .absent sharer pending cstate ignored (.queued rfl waits)⟩
  | pending => cases same
  | granted => cases same
  | @held _ _ answered upgrade sharer pending consistent copy live sent
      answers tokens =>
      subst same
      rcases sent.kinds with rfl | ⟨data, rfl⟩
      · obtain rfl := Option.some.inj request
        obtain ⟨rfl, further⟩ := sent.tail_upgrade
        rcases tokens with ⟨upgrading, token, waits⟩ | ⟨-, impossible, -⟩
        · rcases token with ⟨-, queued⟩ | ⟨impossible, -⟩
          · exact ⟨queued, pending, fun other => absurd rfl other,
              .held sharer pending ⟨consistent.cached, consistent.flush,
                consistent.invalidate, consistent.writeBack⟩ copy live further
                answers (Or.inl ⟨upgrading, Or.inr ⟨rfl, rfl⟩, waits⟩)⟩
          · cases impossible
        · cases impossible
      · cases request
  | @left _ before after answered upgrade removal sharer pending consistent
      cstate ignored sent removes answers leaving =>
      cases before with
      | nil =>
          obtain ⟨rfl, rfl⟩ := List.cons.inj same
          cases msg with
          | exReq | shReq | upgradeReq => exact removes.elim
          | invRep | flushRep | wbRep => cases request
      | cons first before =>
          obtain ⟨rfl, rfl⟩ := List.cons.inj same
          rcases sent.kinds with rfl | ⟨data, rfl⟩
          · obtain rfl := Option.some.inj request
            obtain ⟨rfl, further⟩ := sent.tail_upgrade
            rcases leaving with ⟨⟨token, waits⟩, rest⟩ | ⟨impossible, -⟩
            · rcases token with ⟨-, queued⟩ | ⟨impossible, -⟩
              · exact ⟨queued, pending, fun other => absurd rfl other,
                  .left sharer pending ⟨consistent.cached, consistent.flush,
                    consistent.invalidate, consistent.writeBack⟩ cstate
                    ignored further removes answers
                    (Or.inl ⟨⟨Or.inr ⟨rfl, rfl⟩, waits⟩, rest⟩)⟩
              · cases impossible
            · cases impossible
          · cases request

/-- The cache that gives up its copy is no sharer any more. -/
theorem Link.receiveRemoval {removal : ToDirectory Line}
    (link : Link limited view cache down (removal :: up))
    (isRemoval : removal = .invRep ∨ ∃ data, removal = .flushRep data) :
    view.sharer = true ∧ view.pending = false ∧ view.Consistent limited ∧
      Removal view false removal ∧
      ∀ view' : View, view'.sharer = false → view'.pending = false →
        view'.queued = view.queued → Link limited view' cache down up := by
  have notRequest : removal.reqType = none := by
    rcases isRemoval with rfl | ⟨data, rfl⟩ <;> rfl
  have notSent : ∀ {answered upgrade} {rest : List (ToDirectory Line)},
      ¬ Sent answered upgrade (removal :: rest) := by
    intro answered upgrade rest sent
    rcases sent.kinds with same | ⟨data, same⟩
    · rw [same] at notRequest
      cases notRequest
    · rw [same] at isRemoval
      simp at isRemoval
  generalize same : removal :: up = received at link
  cases link with
  | absent sharer pending cstate ignored requesting =>
      cases requesting with
      | idle => cases same
      | queued => cases same
      | sent _ request =>
          obtain ⟨rfl, -⟩ := List.cons.inj same
          rw [notRequest] at request
          cases request
  | pending => cases same
  | granted => cases same
  | held _ _ _ _ _ sent =>
      subst same
      exact absurd sent notSent
  | @left _ before after answered upgrade other sharer pending consistent
      cstate ignored sent removes answers leaving =>
      cases before with
      | cons first before =>
          obtain ⟨rfl, -⟩ := List.cons.inj same
          exact absurd sent notSent
      | nil =>
          obtain ⟨rfl, rfl⟩ := List.cons.inj same
          cases sent
          refine ⟨sharer, pending, consistent, removes, ?_⟩
          intro view' sharer' pending' queued'
          refine .absent sharer' pending' cstate ignored ?_
          rw [queued']
          rcases leaving with ⟨⟨token, waits⟩, rfl, -⟩ | ⟨-, -, requesting, -⟩
          · rcases token with ⟨impossible, -⟩ | ⟨-, queued⟩
            · cases impossible
            · exact .queued queued waits
          · exact requesting

/-- The directory receives `WB_REP`. -/
theorem Link.receiveWbRep {data : Data Line}
    (link : Link limited view cache down (.wbRep data :: up)) :
    view.sharer = true ∧ view.pending = false ∧ view.asked = .writeBack ∧
      Link limited { view with dstate := .shared, asked := .nothing } cache
        down up := by
  have consistent' : View.Consistent limited
      { view with dstate := .shared, asked := .nothing } :=
    ⟨by simp, by simp, by simp, by simp⟩
  generalize same : ToDirectory.wbRep data :: up = received at link
  cases link with
  | absent sharer pending cstate ignored requesting =>
      cases requesting with
      | idle => cases same
      | queued => cases same
      | sent _ request =>
          obtain ⟨rfl, -⟩ := List.cons.inj same
          cases request
  | pending => cases same
  | granted => cases same
  | @held _ _ answered upgrade sharer pending consistent copy live sent
      answers tokens =>
      subst same
      obtain ⟨rfl, further⟩ := sent.tail_answer
      refine ⟨sharer, pending, answers rfl, .held sharer pending consistent'
        ?_ ?_ further (fun answered => absurd answered Bool.false_ne_true)
        tokens⟩
      · rw [Copy, if_pos (Or.inl rfl)] at copy
        rw [Copy, if_pos (Or.inr rfl)]
        exact copy
      · obtain ⟨extra, rest, rfl, surplus, kept⟩ := live
        refine ⟨extra, rest, rfl, fun nonzero => ⟨(surplus nonzero).1, rfl⟩,
          ?_⟩
        rcases kept with ⟨empty, -⟩ | ⟨impossible, -⟩
        · exact Or.inl ⟨empty, Or.inr rfl⟩
        · cases impossible
  | @left _ before after answered upgrade removal sharer pending consistent
      cstate ignored sent removes answers leaving =>
      cases before with
      | nil =>
          obtain ⟨rfl, -⟩ := List.cons.inj same
          exact removes.elim
      | cons first before =>
          obtain ⟨rfl, rfl⟩ := List.cons.inj same
          obtain ⟨rfl, further⟩ := sent.tail_answer
          refine ⟨sharer, pending, answers rfl, .left sharer pending
            consistent' cstate ignored further ?_
            (fun answered => absurd answered Bool.false_ne_true) ?_⟩
          · cases removal with
            | invRep => exact Or.inr (by simp)
            | flushRep =>
                obtain ⟨impossible, -⟩ := removes
                cases impossible
            | exReq | shReq | upgradeReq | wbRep => exact removes.elim
          · rcases leaving with ⟨-, -, impossible, -⟩ | idle
            · cases impossible
            · exact Or.inr idle

/-! ## Telling a sharer -/

theorem Live.concat {msg : ToCache Line} {asked : Asked}
    (live : Live limited view false down) (idle : view.asked = .nothing)
    (allows : asked.Allows msg) :
    Live limited { view with asked := asked } false (down ++ [msg]) := by
  obtain ⟨extra, rest, rfl, surplus, kept⟩ := live
  rcases kept with ⟨rfl, -⟩ | ⟨-, other, rfl, impossible⟩
  · exact ⟨extra, [msg], by simp, surplus, Or.inr ⟨rfl, msg, rfl, allows⟩⟩
  · rw [idle] at impossible
    exact impossible.elim

/-- The directory tells a sharer what to do. -/
theorem Link.ask {msg : ToCache Line} {asked : Asked}
    (link : Link limited view cache down up) (sharer : view.sharer = true)
    (pending : view.pending = false) (idle : view.asked = .nothing)
    (allows : asked.Allows msg)
    (consistent' : View.Consistent limited { view with asked := asked }) :
    Link limited { view with asked := asked } cache (down ++ [msg]) up := by
  cases link with
  | absent other => simp [sharer] at other
  | pending _ other => simp [pending] at other
  | granted _ _ _ queued ignored granted live =>
      rw [List.append_assoc, List.cons_append]
      exact .granted sharer pending consistent' queued ignored granted
        (live.concat idle allows)
  | @held _ _ answered upgrade _ _ _ copy live sent answers tokens =>
      have unanswered : answered = false := by
        cases answered with
        | false => rfl
        | true => simp [idle] at answers
      subst unanswered
      exact .held sharer pending consistent' copy (live.concat idle allows)
        sent (fun answered => absurd answered Bool.false_ne_true) tokens
  | @left _ before after answered upgrade removal _ _ _ cstate ignored sent
      removes answers leaving =>
      have unanswered : answered = false := by
        cases answered with
        | false => rfl
        | true => simp [idle] at answers
      subst unanswered
      refine .left sharer pending consistent' cstate
        (ignored.concat allows.repType) sent ?_
        (fun answered => absurd answered Bool.false_ne_true) ?_
      · cases removal with
        | invRep => exact removes
        | flushRep =>
            refine ⟨rfl, fun shared => ?_⟩
            have impossible := removes.2 shared
            rw [idle] at impossible
            cases impossible
        | exReq | shReq | upgradeReq | wbRep => exact removes.elim
      · rcases leaving with ⟨token, empty, answered, shared, told⟩ | other
        · refine Or.inl ⟨token, empty, answered, shared, Or.inl ?_⟩
          rcases told with allowed | ⟨orFlush, impossible⟩
          · exact allowed
          · rw [idle] at impossible
            cases impossible
        · exact Or.inr other

/-- An invalidation whose answer another cache may give. -/
theorem Link.surplus (link : Link limited view cache down up)
    (sharer : view.sharer = true) (pending : view.pending = false)
    (allowed : limited) (shared : view.dstate = .shared)
    (idle : view.asked = .nothing) :
    Link limited view cache (down ++ [.invReq]) up := by
  have more : ∀ {answered down}, Live limited view answered down →
      Live limited view answered (down ++ [(.invReq : ToCache Line)]) := by
    rintro answered down ⟨extra, rest, rfl, -, kept⟩
    rcases kept with ⟨rfl, kept⟩ | ⟨-, msg, rfl, impossible⟩
    · refine ⟨extra + 1, [], ?_, fun _ => ⟨allowed, shared⟩,
        Or.inl ⟨rfl, kept⟩⟩
      rw [List.append_nil, List.append_nil, List.replicate_succ']
    · rw [idle] at impossible
      exact impossible.elim
  cases link with
  | absent other => simp [sharer] at other
  | pending _ other => simp [pending] at other
  | granted _ _ consistent queued ignored granted live =>
      rw [List.append_assoc, List.cons_append]
      exact .granted sharer pending consistent queued ignored granted
        (more live)
  | held _ _ consistent copy live sent answers tokens =>
      exact .held sharer pending consistent copy (more live) sent answers
        tokens
  | left _ _ consistent cstate ignored sent removes answers leaving =>
      exact .left sharer pending consistent cstate (ignored.concat rfl) sent
        removes answers leaving

/-! ## Replying -/

/-- A cache becomes a sharer, and its data is to be fetched. -/
theorem Link.pend {msgType : ReqType}
    (link : Link limited view cache down up) (sharer : view.sharer = false)
    (queued : view.queued = some msgType) {dstate : DirectoryState}
    (cached : dstate ≠ .uncached)
    (exclusive : dstate = .modified → msgType ≠ .shReq) :
    Link limited ⟨true, dstate, true, view.queued, .nothing⟩ cache down
      up := by
  cases link with
  | absent _ _ cstate ignored requesting =>
      cases requesting with
      | idle impossible =>
          rw [queued] at impossible
          cases impossible
      | sent impossible =>
          rw [queued] at impossible
          cases impossible
      | queued queued' waits =>
          obtain rfl := Option.some.inj (queued.symm.trans queued')
          exact .pending rfl rfl ⟨cached, by simp, by simp, by simp⟩ cstate
            ignored rfl queued waits exclusive
  | pending other => simp [sharer] at other
  | granted other => simp [sharer] at other
  | held other => simp [sharer] at other
  | left other => simp [sharer] at other

/-- The reply to a cache that waits for its data. -/
theorem Link.grant {grant : ToCache Line}
    (link : Link limited view cache down up) (pending : view.pending = true)
    (reply : (∃ data, grant = .shRep data ∧ view.dstate = .shared) ∨
      ∃ data, grant = .exRep data ∧ view.dstate ≠ .shared) :
    Link limited { view with pending := false, queued := none } cache
      (down ++ [grant]) up := by
  cases link with
  | absent _ other => simp [pending] at other
  | granted _ other => simp [pending] at other
  | held _ other => simp [pending] at other
  | left _ other => simp [pending] at other
  | @pending _ msgType sharer _ consistent cstate ignored asked queued waits
      exclusive =>
      refine .granted sharer rfl ⟨consistent.cached, consistent.flush,
        consistent.invalidate, consistent.writeBack⟩ rfl ignored ?_
        ⟨0, [], rfl, fun nonzero => absurd rfl nonzero,
          Or.inl ⟨rfl, Or.inr asked⟩⟩
      rcases reply with ⟨data, rfl, shared⟩ | ⟨data, rfl, notShared⟩
      · exact ⟨cstate, shared, waits.ne_nil⟩
      · refine ⟨cstate, notShared, ?_⟩
        obtain ⟨op, rest, waiters, first⟩ := waits
        refine ⟨op, rest, waiters, ?_⟩
        intro other
        refine first ?_
        by_cases modified : view.dstate = .modified
        · exact exclusive modified
        · simp [modified] at other

/-- No invalidation is on its way to or from a cache. -/
def Undisturbed (down : List (ToCache Line))
    (up : List (ToDirectory Line)) : Prop :=
  .invReq ∉ down ∧ .invRep ∉ up

/-- The upgrade of the only sharer. -/
theorem Link.grantUpgrade (link : Link limited view cache down up)
    (sharer : view.sharer = true) (pending : view.pending = false)
    (queued : view.queued = some .upgradeReq) (idle : view.asked = .nothing)
    (shared : view.dstate = .shared) (quiet : Undisturbed down up) :
    Link limited { view with dstate := .modified, queued := none } cache
      (down ++ [.upgradeRep]) up := by
  cases link with
  | absent other => simp [sharer] at other
  | pending _ other => simp [pending] at other
  | granted _ _ _ other =>
      rw [queued] at other
      cases other
  | @held _ _ answered upgrade _ _ consistent copy live sent answers tokens =>
      have unanswered : answered = false := by
        cases answered with
        | false => rfl
        | true => simp [idle] at answers
      subst unanswered
      rcases tokens with ⟨upgrading, token, waits⟩ | ⟨-, -, other, -⟩
      · rcases token with ⟨-, other⟩ | ⟨rfl, -⟩
        · rw [queued] at other
          cases other
        · cases sent
          have empty : down = [] := by
            obtain ⟨extra, rest, rfl, -, kept⟩ := live
            rcases kept with ⟨rfl, -⟩ | ⟨-, msg, rfl, impossible⟩
            · cases extra with
              | zero => rfl
              | succ extra =>
                  exact absurd (by simp [List.replicate_succ]) quiet.1
            · rw [idle] at impossible
              exact impossible.elim
          subst empty
          have nothing : Ignored ([] : List (ToCache Line)) :=
            fun msg mem => absurd mem List.not_mem_nil
          exact .granted sharer pending
            ⟨by simp, by simp, by simp [idle], by simp [idle]⟩ rfl nothing
            ⟨upgrading, rfl, rfl, waits⟩
            ⟨0, [], rfl, fun nonzero => absurd rfl nonzero,
              Or.inl ⟨rfl, Or.inr idle⟩⟩
      · rw [queued] at other
        cases other
  | @left _ before after answered upgrade removal _ _ _ cstate ignored sent
      removes answers leaving =>
      exfalso
      cases removal with
      | invRep => exact quiet.2 (by simp)
      | flushRep =>
          have impossible := removes.2 shared
          rw [idle] at impossible
          cases impossible
      | exReq | shReq | upgradeReq | wbRep => exact removes

/-- With a sharer list that is never full, an upgrade is not disturbed. -/
theorem Link.undisturbed (link : Link limited view cache down up)
    (full : ¬ limited) (sharer : view.sharer = true)
    (queued : view.queued = some .upgradeReq)
    (pending : view.pending = false) (idle : view.asked = .nothing) :
    Undisturbed down up := by
  cases link with
  | absent other => simp [sharer] at other
  | pending _ other => simp [pending] at other
  | granted _ _ _ other =>
      rw [queued] at other
      cases other
  | @held _ _ answered upgrade _ _ _ copy live sent answers tokens =>
      constructor
      · obtain ⟨extra, rest, rfl, surplus, kept⟩ := live
        intro mem
        rcases List.mem_append.mp mem with old | new
        · refine full (surplus ?_).1
          rintro rfl
          cases old
        · rcases kept with ⟨rfl, -⟩ | ⟨-, msg, rfl, impossible⟩
          · cases new
          · rw [idle] at impossible
            exact impossible
      · intro mem
        cases sent <;> simp at mem
  | @left _ before after answered upgrade removal _ _ _ cstate ignored sent
      removes answers leaving =>
      exfalso
      rcases leaving with ⟨-, -, -, -, allowed | ⟨orFlush, told⟩⟩ |
        ⟨-, other, -⟩
      · exact full allowed
      · rw [idle] at told
        cases told
      · rw [queued] at other
        cases other

end ChipletSniper.Coherence
