import RlsTenants.Spec.BlockRuns

/-!
# Well-nested programs

What a thread does when the last block that it has entered is the first that it leaves.

* A `Program` enters blocks and leaves them, with other deeds between. An exception leaves a
  shorter body, and is `pending` at the exits that it passes.
* `Program.acts` are the acts of its run, and `Program.blocks` the states before each of its
  blocks and after it.
* `Running.seen` is what a statement's commands on rows see.
-/

namespace RlsTenants

/-- A deed that is none of a block: a statement, or what Django does to a connection. -/
def Deed.isPlain : Deed → Bool
  | enter _ _ => false
  | exit _ _ => false
  | enterNoContext => false
  | exitNoContext _ => false
  | switch _ => false
  | _ => true

/-- A program. What becomes of its messages is told act by act. -/
inductive Program
  | done
  | deed (deed : { d : Deed // d.isPlain = true }) (fates : ℕ → List Fate) (rest : Program)
  | block (dbAlias : ℕ) (block : ContextBlock) (entry : ℕ → List Fate) (body : Program) (pending : Bool)
      (exit : ℕ → List Fate) (rest : Program)
  | noContext (body : Program) (exit : ℕ → List Fate) (rest : Program)

namespace Running

/-- The state after some acts. -/
abbrev acts (s : Running) (as : List Act) : Running := Run.run Running.act s as

/-- The entry raised: there is no new block. -/
abbrev Refused (s entered : Running) : Prop := entered.blocks.length = s.blocks.length

/-- The exit of the block that was the newest when it was entered. -/
def exitOf (entered now : Running) (pending : Bool) (fates : ℕ → List Fate) : Act :=
  ⟨.exit (now.blocks.length - entered.blocks.length) pending, fates⟩

/-- The exit of the block without context that was. -/
def exitNoContextOf (entered now : Running) (fates : ℕ → List Fate) : Act :=
  ⟨.exitNoContext (now.noContexts.length - entered.noContexts.length), fates⟩

end Running

namespace Program

/-- What the program does, from here. -/
def acts : Program → Running → List Act
  | done, _ => []
  | deed d fates rest, s => ⟨d, fates⟩ :: rest.acts (s.act ⟨d, fates⟩)
  | block dbAlias b entry body pending exit rest, s =>
    let enters : Act := ⟨.enter dbAlias b, entry⟩
    let entered := s.act enters
    if s.Refused entered then enters :: rest.acts entered
    else
      let now := entered.acts (body.acts entered)
      let leaves := entered.exitOf now pending exit
      enters :: (body.acts entered ++ leaves :: rest.acts (now.act leaves))
  | noContext body exit rest, s =>
    let enters : Act := ⟨.enterNoContext, fun _ => []⟩
    let entered := s.act enters
    let now := entered.acts (body.acts entered)
    let leaves := entered.exitNoContextOf now exit
    enters :: (body.acts entered ++ leaves :: rest.acts (now.act leaves))

/-- The thread before each of its blocks, and after it. -/
def blocks : Program → Running → List (Running × Running)
  | done, _ => []
  | deed d fates rest, s => rest.blocks (s.act ⟨d, fates⟩)
  | block dbAlias b entry body pending exit rest, s =>
    let entered := s.act ⟨.enter dbAlias b, entry⟩
    if s.Refused entered then (s, entered) :: rest.blocks entered
    else
      let now := entered.acts (body.acts entered)
      let left := now.act (entered.exitOf now pending exit)
      body.blocks entered ++ (s, left) :: rest.blocks left
  | noContext body exit rest, s =>
    let entered := s.act ⟨.enterNoContext, fun _ => []⟩
    let now := entered.acts (body.acts entered)
    let left := now.act (entered.exitNoContextOf now exit)
    body.blocks entered ++ (s, left) :: rest.blocks left

end Program

/-- Nothing is known of what ran before. -/
def Running.unlogged (s : Running) : Running :=
  { s with thread := { s.thread with conns := s.thread.conns.map fun c => { c with ran := [] } } }

/-- What a statement's commands on rows see on an alias. -/
def Running.seen (s : Running) (dbAlias : ℕ) (sql : Sql) (fates : ℕ → List Fate) : List ContextGucs :=
  ((s.unlogged.act ⟨.statement dbAlias sql, fates⟩).thread.conns[dbAlias]?).elim [] fun c => c.ran.map Ran.seen

end RlsTenants
