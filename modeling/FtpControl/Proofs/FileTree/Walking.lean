import FtpControl.FileTree.Walk

/-!
# Walks step by step

What a walk does at a name, once for all of them: it fails there, or takes a step like those that
walks take which succeed. From it: a walk along names goes where those in front lead, and on from
there; a walk that finds nothing has followed every link; and spelling out the places on the way
makes no difference to a walk that it does not stop.
-/

namespace FtpControl

/-! ## Answers that may be errors -/

section

variable {ε ε' α β : Type} {answer : Except ε α}

theorem bind_eq_ok_iff {next : α → Except ε β} {b : β} :
    (answer >>= next) = .ok b ↔ ∃ a, answer = .ok a ∧ next a = .ok b := by
  cases answer <;> simp [bind, Except.bind]

theorem map_eq_ok_iff {f : α → β} {b : β} :
    answer.map f = .ok b ↔ ∃ a, answer = .ok a ∧ f a = b := by
  cases answer <;> simp [Except.map]

theorem mapError_eq_ok_iff {f : ε → ε'} {a : α} :
    answer.mapError f = .ok a ↔ answer = .ok a := by
  cases answer with
  | error e => exact ⟨nofun, nofun⟩
  | ok b =>
      show (Except.ok b : Except ε' α) = .ok a ↔ _
      simp

theorem map_mapError (answer : Except ε α) (e : ε → ε') (f : α → β) :
    (answer.mapError e).map f = (answer.map f).mapError e := by
  cases answer <;> rfl

theorem map_map {γ : Type} (answer : Except ε α) (f : α → β) (g : β → γ) :
    (answer.map f).map g = answer.map fun a => g (f a) := by
  cases answer <;> rfl

end

/-! ## Steps of a walk -/

/-- The location that a walk ends at, where there is something or could be. -/
def Spot.location : Spot → Location
  | taken place => place
  | free directory name => directory ++ [name]

theorem Ending.follow_ne_create : Ending.follow ≠ .create := by decide

theorem Ending.keep_ne_create : Ending.keep ≠ .create := by decide

theorem Ending.spell_ne_create : Ending.spell ≠ .create := by decide

theorem Ending.spell_ne_keep : Ending.spell ≠ .keep := by decide

namespace FileTree

/-- What is at a place, without its permissions and times. -/
def content? (t : FileTree) (place : Location) : Option Content :=
  (t.node? place).map Node.content

/-- Whether a walk that has come to a place looks a name up there. -/
structure LooksUp (t : FileTree) (ending : Ending) (place : Location) (name : String)
    (rest : List String) : Prop where
  directory : t.isDirectory place = true
  ordinary : name ≠ "" ∧ name ≠ "." ∧ name ≠ ".."
  makes : ¬ (ending = .create ∧ rest = [""])
  near : ending = .spell → isTooFar place name = false
  short : name.utf8ByteSize ≤ nameLimit

/-- The walks that succeed, with the spot where they end. -/
inductive Walks (t : FileTree) (ending : Ending) :
    Nat → Location → List String → Spot → Prop where
  | done {links place} : Walks t ending links place [] (.taken place)
  | skip {links place name rest spot} (hdir : t.isDirectory place = true)
      (hname : name = "" ∨ name = ".") (h : Walks t ending links place rest spot) :
      Walks t ending links place (name :: rest) spot
  | up {links place rest spot} (hdir : t.isDirectory place = true)
      (h : Walks t ending links place.dropLast rest spot) :
      Walks t ending links place (".." :: rest) spot
  | missing {links place name} (hlook : t.LooksUp ending place name [])
      (hnode : t.node? (place ++ [name]) = none) :
      Walks t ending links place [name] (.free place name)
  | kept {links place name node target} (hlook : t.LooksUp ending place name [])
      (hnode : t.node? (place ++ [name]) = some node) (hlink : node.content = .link target)
      (hkeep : ending = .keep) : Walks t ending links place [name] (.taken (place ++ [name]))
  | follow {links place name rest spot node target} (hlook : t.LooksUp ending place name rest)
      (hnode : t.node? (place ++ [name]) = some node) (hlink : node.content = .link target)
      (hgoes : ¬ (rest = [] ∧ ending = .keep)) (htarget : target ≠ "")
      (h : Walks t ending links (origin place target) (names target ++ rest) spot) :
      Walks t ending (links + 1) place (name :: rest) spot
  | enter {links place name rest spot node} (hlook : t.LooksUp ending place name rest)
      (hnode : t.node? (place ++ [name]) = some node)
      (hplain : ∀ target, node.content ≠ .link target)
      (h : Walks t ending links (place ++ [name]) rest spot) :
      Walks t ending links place (name :: rest) spot

/-- Why a walk fails at a name, with so many links left to follow. -/
inductive Refuses (t : FileTree) (ending : Ending) :
    Nat → Location → String → List String → SystemError → Prop where
  | far {links place name rest} (hspell : ending = .spell) (hfar : isTooFar place name = true) :
      Refuses t ending links place name rest .nameTooLong
  | noDirectory {links place name rest} (hnear : ending = .spell → isTooFar place name = false)
      (hdir : t.isDirectory place = false) : Refuses t ending links place name rest .notDirectory
  | makes {links place name rest} (hdir : t.isDirectory place = true)
      (hname : name ≠ "" ∧ name ≠ "." ∧ name ≠ "..") (hmakes : ending = .create ∧ rest = [""]) :
      Refuses t ending links place name rest .isDirectory
  | long {links place name rest} (hnear : ending = .spell → isTooFar place name = false)
      (hdir : t.isDirectory place = true) (hname : name ≠ "" ∧ name ≠ "." ∧ name ≠ "..")
      (hmakes : ¬ (ending = .create ∧ rest = [""])) (hlong : nameLimit < name.utf8ByteSize) :
      Refuses t ending links place name rest .nameTooLong
  | missing {links place name rest} (hlook : t.LooksUp ending place name rest)
      (hnode : t.node? (place ++ [name]) = none) (hrest : rest ≠ []) :
      Refuses t ending links place name rest .noEntry
  | blank {links place name rest node} (hlook : t.LooksUp ending place name rest)
      (hnode : t.node? (place ++ [name]) = some node) (hlink : node.content = .link "")
      (hgoes : ¬ (rest = [] ∧ ending = .keep)) : Refuses t ending links place name rest .noEntry
  | spent {place name rest node target} (hlook : t.LooksUp ending place name rest)
      (hnode : t.node? (place ++ [name]) = some node) (hlink : node.content = .link target)
      (hgoes : ¬ (rest = [] ∧ ending = .keep)) (htarget : target ≠ "") :
      Refuses t ending 0 place name rest .tooManyLinks

/-- Names lead from a place to another one, all links followed and all paths on the way spelled out,
over so many links. -/
inductive Goes (t : FileTree) : Nat → Location → List String → Location → Prop where
  | done {place} : Goes t 0 place [] place
  | skip {spent place name rest goal} (hdir : t.isDirectory place = true)
      (hname : name = "" ∨ name = ".") (h : Goes t spent place rest goal) :
      Goes t spent place (name :: rest) goal
  | up {spent place rest goal} (hdir : t.isDirectory place = true)
      (h : Goes t spent place.dropLast rest goal) : Goes t spent place (".." :: rest) goal
  | follow {spent place name rest goal node target} (hlook : t.LooksUp .spell place name rest)
      (hnode : t.node? (place ++ [name]) = some node) (hlink : node.content = .link target)
      (htarget : target ≠ "") (h : Goes t spent (origin place target) (names target ++ rest) goal) :
      Goes t (spent + 1) place (name :: rest) goal
  | enter {spent place name rest goal node} (hlook : t.LooksUp .spell place name rest)
      (hnode : t.node? (place ++ [name]) = some node)
      (hplain : ∀ target, node.content ≠ .link target)
      (h : Goes t spent (place ++ [name]) rest goal) : Goes t spent place (name :: rest) goal

variable {t u : FileTree} {ending : Ending} {links : Nat} {place : Location}

/-! ## One name -/

theorem isTooFar_of_not_ordinary {name : String} (h : name = "" ∨ name = "." ∨ name = "..")
    (place : Location) : isTooFar place name = false := by
  rcases h with rfl | rfl | rfl <;> rfl

theorem walk_skip (hdir : t.isDirectory place = true) {name : String}
    (hname : name = "" ∨ name = ".") (rest : List String) :
    t.walk ending links place (name :: rest) = t.walk ending links place rest := by
  have hnear := isTooFar_of_not_ordinary (hname.imp_right .inl) place
  rw [walk, hdir]
  simp [hnear, hname]

theorem walk_up (hdir : t.isDirectory place = true) (rest : List String) :
    t.walk ending links place (".." :: rest) = t.walk ending links place.dropLast rest := by
  have hnear := isTooFar_of_not_ordinary (.inr (.inr rfl)) place
  rw [walk, hdir]
  simp [hnear]

section LooksUp

variable {name : String} {rest : List String} {node : Node}

theorem near_iff : (ending = .spell → isTooFar place name = false) ↔
    ¬ (ending = .spell ∧ isTooFar place name = true) := by
  rw [not_and, Bool.not_eq_true]

theorem ordinary_of_not (hname : ¬ (name = "" ∨ name = ".")) (hup : name ≠ "..") :
    name ≠ "" ∧ name ≠ "." ∧ name ≠ ".." := by
  rw [not_or] at hname
  exact ⟨hname.1, hname.2, hup⟩

theorem looksUp_of_not (hnot : ¬ (ending = .spell ∧ isTooFar place name = true))
    (hdir : ¬ (!t.isDirectory place) = true) (hname : ¬ (name = "" ∨ name = "."))
    (hup : name ≠ "..") (hmakes : ¬ (ending = .create ∧ rest = [""]))
    (hlong : ¬ nameLimit < name.utf8ByteSize) : t.LooksUp ending place name rest :=
  ⟨by simpa using hdir, ordinary_of_not hname hup, hmakes, near_iff.mpr hnot,
    Nat.le_of_not_lt hlong⟩

/-- A walk looks a name up where another one does, unless it makes something or is the only one to
spell out where it is. -/
theorem LooksUp.weaken {other : Ending} {rest' : List String} (h : t.LooksUp ending place name rest)
    (hcreate : other ≠ .create) (hspell : other = .spell → ending = .spell) :
    t.LooksUp other place name rest' :=
  ⟨h.directory, h.ordinary, by simp [hcreate], fun ho => h.near (hspell ho), h.short⟩

theorem LooksUp.follow {rest' : List String} (h : t.LooksUp ending place name rest) :
    t.LooksUp .follow place name rest' :=
  h.weaken Ending.follow_ne_create nofun

theorem LooksUp.keep {rest' : List String} (h : t.LooksUp ending place name rest) :
    t.LooksUp .keep place name rest' :=
  h.weaken Ending.keep_ne_create nofun

/-- A walk that looks a name up goes on by what is there. -/
theorem LooksUp.walk_eq (h : t.LooksUp ending place name rest) (links : Nat) :
    t.walk ending links place (name :: rest) =
      match t.content? (place ++ [name]) with
      | none => if rest = [] then .ok (.free place name) else .error .noEntry
      | some (.link target) =>
          if rest = [] ∧ ending = .keep then .ok (.taken (place ++ [name]))
          else if target = "" then .error .noEntry
          else
            match links with
            | 0 => .error .tooManyLinks
            | links + 1 => t.walk ending links (origin place target) (names target ++ rest)
      | some _ => t.walk ending links (place ++ [name]) rest := by
  obtain ⟨hdir, ⟨hempty, hdot, hup⟩, hmakes, hnear, hshort⟩ := h
  rw [walk, if_neg (near_iff.mp hnear), content?]
  cases t.node? (place ++ [name]) with
  | none => simp [hdir, hempty, hdot, hup, hmakes, Nat.not_lt.mpr hshort]
  | some node =>
      obtain ⟨content, permissions, modified⟩ := node
      cases content with
      | link => cases links <;> simp [hdir, hempty, hdot, hup, hmakes, Nat.not_lt.mpr hshort]
      | _ => simp [hdir, hempty, hdot, hup, hmakes, Nat.not_lt.mpr hshort]

theorem LooksUp.walk_of_none (h : t.LooksUp ending place name [])
    (hnode : t.node? (place ++ [name]) = none) (links : Nat) :
    t.walk ending links place [name] = .ok (.free place name) := by
  rw [h.walk_eq, content?, hnode]
  rfl

theorem LooksUp.walk_of_kept {target : String} (h : t.LooksUp .keep place name [])
    (hnode : t.node? (place ++ [name]) = some node) (hlink : node.content = .link target)
    (links : Nat) : t.walk .keep links place [name] = .ok (.taken (place ++ [name])) := by
  rw [h.walk_eq, content?, hnode, Option.map_some, hlink]
  rfl

theorem LooksUp.walk_of_link {target : String} (h : t.LooksUp ending place name rest)
    (hnode : t.node? (place ++ [name]) = some node) (hlink : node.content = .link target)
    (hgoes : ¬ (rest = [] ∧ ending = .keep)) (htarget : target ≠ "") (links : Nat) :
    t.walk ending links place (name :: rest) =
      match links with
      | 0 => .error .tooManyLinks
      | links + 1 => t.walk ending links (origin place target) (names target ++ rest) := by
  rw [h.walk_eq, content?, hnode, Option.map_some, hlink]
  simp only [if_neg hgoes, if_neg htarget]

theorem LooksUp.walk_of_plain (h : t.LooksUp ending place name rest)
    (hnode : t.node? (place ++ [name]) = some node) (hplain : ∀ target, node.content ≠ .link target)
    (links : Nat) :
    t.walk ending links place (name :: rest) = t.walk ending links (place ++ [name]) rest := by
  rw [h.walk_eq, content?, hnode, Option.map_some]
  cases hcontent : node.content with
  | link target => exact absurd hcontent (hplain target)
  | _ => rfl

theorem Refuses.walk_eq {e : SystemError} (h : t.Refuses ending links place name rest e) :
    t.walk ending links place (name :: rest) = .error e := by
  cases h with
  | far hspell hfar => rw [walk, if_pos ⟨hspell, hfar⟩]
  | noDirectory hnear hdir =>
      rw [walk, if_neg (near_iff.mp hnear)]
      simp [hdir]
  | makes hdir hname hmakes =>
      obtain ⟨rfl, rfl⟩ := hmakes
      simp [walk, hdir, hname]
  | long hnear hdir hname hmakes hlong =>
      rw [walk, if_neg (near_iff.mp hnear)]
      simp [hdir, hname, hmakes, hlong]
  | missing hlook hnode hrest =>
      rw [hlook.walk_eq, content?, hnode]
      exact if_neg hrest
  | blank hlook hnode hlink hgoes =>
      rw [hlook.walk_eq, content?, hnode, Option.map_some, hlink]
      simp only [if_neg hgoes, if_true]
  | spent hlook hnode hlink hgoes htarget => rw [hlook.walk_of_link hnode hlink hgoes htarget]

end LooksUp

/-! ## Walks as steps -/

/-- Every walk is refused at its first name, or takes a step like those that succeed. -/
theorem walk_induction (t : FileTree) (ending : Ending)
    {motive : Nat → Location → List String → Prop} (done : ∀ {links place}, motive links place [])
    (refused : ∀ {links place name rest e}, t.Refuses ending links place name rest e →
      motive links place (name :: rest))
    (skip : ∀ {links place name rest}, t.isDirectory place = true → name = "" ∨ name = "." →
      motive links place rest → motive links place (name :: rest))
    (up : ∀ {links place rest}, t.isDirectory place = true → motive links place.dropLast rest →
      motive links place (".." :: rest))
    (missing : ∀ {links place name}, t.LooksUp ending place name [] →
      t.node? (place ++ [name]) = none → motive links place [name])
    (kept : ∀ {links place name node target}, t.LooksUp ending place name [] →
      t.node? (place ++ [name]) = some node → node.content = .link target → ending = .keep →
      motive links place [name])
    (follow : ∀ {links place name rest node target}, t.LooksUp ending place name rest →
      t.node? (place ++ [name]) = some node → node.content = .link target →
      ¬ (rest = [] ∧ ending = .keep) → target ≠ "" →
      motive links (origin place target) (names target ++ rest) →
      motive (links + 1) place (name :: rest))
    (enter : ∀ {links place name rest node}, t.LooksUp ending place name rest →
      t.node? (place ++ [name]) = some node → (∀ target, node.content ≠ .link target) →
      motive links (place ++ [name]) rest → motive links place (name :: rest))
    (links : Nat) (place : Location) (names : List String) : motive links place names := by
  induction links, place, names using walk.induct t ending with
  | case1 => exact done
  | case2 _ _ _ _ hfar => exact refused (.far hfar.1 hfar.2)
  | case3 _ _ _ _ hnot hdir =>
      exact refused (.noDirectory (near_iff.mpr hnot) (by simpa using hdir))
  | case4 _ _ _ _ _ hdir hname ih => exact skip (by simpa using hdir) hname ih
  | case5 _ _ _ hdir _ _ ih => exact up (by simpa using hdir) ih
  | case6 _ _ _ _ _ hdir hname hup hmakes =>
      exact refused (.makes (by simpa using hdir) (ordinary_of_not hname hup) hmakes)
  | case7 _ _ _ _ hnot hdir hname hup hmakes hlong =>
      have hordinary := ordinary_of_not hname hup
      exact refused (.long (near_iff.mpr hnot) (by simpa using hdir) hordinary hmakes hlong)
  | case8 _ _ _ hnot hdir hname hup hlong hnode hmakes =>
      exact missing (looksUp_of_not hnot hdir hname hup hmakes hlong) hnode
  | case9 _ _ _ _ hnot hdir hname hup hmakes hlong hnode hrest =>
      exact refused (.missing (looksUp_of_not hnot hdir hname hup hmakes hlong) hnode hrest)
  | case10 _ _ _ _ hnot hdir hname hup hmakes hlong _ _ _ hnode hkeep =>
      obtain ⟨rfl, hkeep⟩ := hkeep
      exact kept (looksUp_of_not hnot hdir hname hup hmakes hlong) hnode rfl hkeep
  | case11 _ _ _ _ hnot hdir hname hup hmakes hlong _ _ hgoes hnode =>
      exact refused (.blank (looksUp_of_not hnot hdir hname hup hmakes hlong) hnode rfl hgoes)
  | case12 _ _ _ hnot hdir hname hup hmakes hlong _ _ _ hnode hgoes htarget =>
      have hlook := looksUp_of_not hnot hdir hname hup hmakes hlong
      exact refused (.spent hlook hnode rfl hgoes htarget)
  | case13 _ _ _ hnot hdir hname hup hmakes hlong _ _ _ hnode hgoes htarget _ ih =>
      have hlook := looksUp_of_not hnot hdir hname hup hmakes hlong
      exact follow hlook hnode rfl hgoes htarget ih
  | case14 _ _ _ _ hnot hdir hname hup hmakes hlong node hplain hnode ih =>
      refine enter (looksUp_of_not hnot hdir hname hup hmakes hlong) hnode ?_ ih
      intro target hlink
      obtain ⟨content, permissions, modified⟩ := node
      obtain rfl : content = .link target := hlink
      exact hplain target permissions modified rfl

theorem walks_of_walk {names : List String} {spot : Spot}
    (h : t.walk ending links place names = .ok spot) : t.Walks ending links place names spot := by
  induction links, place, names using t.walk_induction ending with
  | done =>
      rw [walk, Except.ok.injEq] at h
      subst h
      exact .done
  | refused hrefuses =>
      rw [hrefuses.walk_eq] at h
      cases h
  | skip hdir hname ih =>
      rw [walk_skip hdir hname] at h
      exact .skip hdir hname (ih h)
  | up hdir ih =>
      rw [walk_up hdir] at h
      exact .up hdir (ih h)
  | missing hlook hnode =>
      rw [hlook.walk_of_none hnode, Except.ok.injEq] at h
      subst h
      exact .missing hlook hnode
  | kept hlook hnode hlink hkeep =>
      subst hkeep
      rw [hlook.walk_of_kept hnode hlink, Except.ok.injEq] at h
      subst h
      exact .kept hlook hnode hlink rfl
  | follow hlook hnode hlink hgoes htarget ih =>
      rw [hlook.walk_of_link hnode hlink hgoes htarget] at h
      exact .follow hlook hnode hlink hgoes htarget (ih h)
  | enter hlook hnode hplain ih =>
      rw [hlook.walk_of_plain hnode hplain] at h
      exact .enter hlook hnode hplain (ih h)

theorem walk_of_walks {names : List String} {spot : Spot}
    (h : t.Walks ending links place names spot) :
    t.walk ending links place names = .ok spot := by
  induction h with
  | done => rw [walk]
  | skip hdir hname _ ih => rw [walk_skip hdir hname, ih]
  | up hdir _ ih => rw [walk_up hdir, ih]
  | missing hlook hnode => exact hlook.walk_of_none hnode _
  | kept hlook hnode hlink hkeep =>
      subst hkeep
      exact hlook.walk_of_kept hnode hlink _
  | follow hlook hnode hlink hgoes htarget _ ih =>
      rw [hlook.walk_of_link hnode hlink hgoes htarget]
      exact ih
  | enter hlook hnode hplain _ ih => rw [hlook.walk_of_plain hnode hplain, ih]

/-- Spelling out the places on the way makes no difference to a walk that it does not stop. -/
theorem walk_spell_eq_or (t : FileTree) (links : Nat) (place : Location) (names : List String) :
    t.walk .spell links place names = .error .nameTooLong ∨
      t.walk .spell links place names = t.walk .follow links place names := by
  induction links, place, names using t.walk_induction .spell with
  | done => exact .inr (by rw [walk, walk])
  | @refused links place name rest e hrefuses =>
      suffices e = .nameTooLong ∨ t.Refuses .follow links place name rest e by
        rw [hrefuses.walk_eq]
        exact this.imp (congrArg _) fun hrefuses' => hrefuses'.walk_eq.symm
      cases hrefuses with
      | far => exact .inl rfl
      | noDirectory _ hdir => exact .inr (.noDirectory (by simp) hdir)
      | makes _ _ hmakes => cases hmakes.1
      | long => exact .inl rfl
      | missing hlook hnode hrest => exact .inr (.missing hlook.follow hnode hrest)
      | blank hlook hnode hlink => exact .inr (.blank hlook.follow hnode hlink (by simp))
      | spent hlook hnode hlink _ htarget =>
          exact .inr (.spent hlook.follow hnode hlink (by simp) htarget)
  | skip hdir hname ih => rwa [walk_skip hdir hname, walk_skip hdir hname]
  | up hdir ih => rwa [walk_up hdir, walk_up hdir]
  | missing hlook hnode =>
      right
      rw [hlook.walk_of_none hnode, hlook.follow.walk_of_none hnode]
  | kept _ _ _ hkeep => cases hkeep
  | follow hlook hnode hlink hgoes htarget ih =>
      rwa [hlook.walk_of_link hnode hlink hgoes htarget,
        hlook.follow.walk_of_link hnode hlink (by simp) htarget]
  | enter hlook hnode hplain ih =>
      rwa [hlook.walk_of_plain hnode hplain, hlook.follow.walk_of_plain hnode hplain]

/-! ## Names that nothing has -/

/-- A walk that did not stay at a link in the end has followed every link. -/
theorem Walks.follows {names : List String} {spot : Spot}
    (h : t.Walks ending links place names spot)
    (hend : ending = .keep → ∃ directory name, spot = .free directory name) :
    t.Walks .follow links place names spot := by
  induction h with
  | done => exact .done
  | skip hdir hname _ ih => exact .skip hdir hname (ih hend)
  | up hdir _ ih => exact .up hdir (ih hend)
  | missing hlook hnode => exact .missing hlook.follow hnode
  | kept _ _ _ hkeep =>
      obtain ⟨_, _, hspot⟩ := hend hkeep
      cases hspot
  | follow hlook hnode hlink _ htarget _ ih =>
      exact .follow hlook.follow hnode hlink (by simp) htarget (ih hend)
  | enter hlook hnode hplain _ ih => exact .enter hlook.follow hnode hplain (ih hend)

theorem Walks.follow_of_free {names : List String} {directory : Location} {name : String}
    (h : t.Walks .keep links place names (.free directory name)) :
    t.Walks .follow links place names (.free directory name) :=
  h.follows fun _ => ⟨directory, name, rfl⟩

/-- Where a walk finds nothing, nothing is. -/
theorem Walks.node?_of_free {names : List String} {directory : Location} {name : String}
    (h : t.Walks ending links place names (.free directory name)) :
    t.node? (directory ++ [name]) = none := by
  generalize hspot : Spot.free directory name = spot at h
  induction h with
  | done => cases hspot
  | skip _ _ _ ih => exact ih hspot
  | up _ _ ih => exact ih hspot
  | missing _ hnode =>
      obtain ⟨rfl, rfl⟩ := Spot.free.inj hspot
      exact hnode
  | kept => cases hspot
  | follow _ _ _ _ _ _ ih => exact ih hspot
  | enter _ _ _ _ ih => exact ih hspot

theorem Walks.isDirectory {name : String} {rest : List String} {spot : Spot}
    (h : t.Walks ending links place (name :: rest) spot) : t.isDirectory place = true := by
  cases h with
  | skip hdir => exact hdir
  | up hdir => exact hdir
  | missing hlook => exact hlook.directory
  | kept hlook => exact hlook.directory
  | follow hlook => exact hlook.directory
  | enter hlook => exact hlook.directory

theorem Walks.spot_of_nil {spot : Spot} (h : t.Walks ending links place [] spot) :
    spot = .taken place := by
  cases h
  rfl

/-- A walk along one name that ends at a free one has looked that name up. It is free, or that of a
link. -/
theorem Walks.last_of_free {last name : String} {directory : Location}
    (h : t.Walks ending links place [last] (.free directory name))
    (hlast : last ≠ "" ∧ last ≠ "." ∧ last ≠ "..") :
    t.LooksUp ending place last [] ∧
      (directory = place ∧ name = last ∧ t.node? (place ++ [last]) = none ∨
        ∃ node target, t.node? (place ++ [last]) = some node ∧ node.content = .link target) := by
  cases h with
  | skip _ hname => exact absurd hname (not_or.mpr ⟨hlast.1, hlast.2.1⟩)
  | up => exact absurd rfl hlast.2.2
  | missing hlook hnode => exact ⟨hlook, .inl ⟨rfl, rfl, hnode⟩⟩
  | follow hlook hnode hlink => exact ⟨hlook, .inr ⟨_, _, hnode, hlink⟩⟩
  | enter _ _ _ h => cases h.spot_of_nil

/-! ## Walks in two parts -/

variable {front back : List String} {goal : Location}

/-- A walk goes where the names in front lead, and on from there with the links that are left. -/
theorem Goes.walk_append {spent : Nat} (h : t.Goes spent place front goal) (left : Nat)
    (hending : ending ≠ .create) (hback : back ≠ [] ∨ ending ≠ .keep) :
    t.walk ending (left + spent) place (front ++ back) = t.walk ending left goal back := by
  induction h with
  | done => rfl
  | skip hdir hname _ ih => rw [List.cons_append, walk_skip hdir hname, ih]
  | up hdir _ ih => rw [List.cons_append, walk_up hdir, ih]
  | @follow spent place name rest goal node target hlook hnode hlink htarget _ ih =>
      have hlook' : t.LooksUp ending place name (rest ++ back) := hlook.weaken hending fun _ => rfl
      have hgoes : ¬ (rest ++ back = [] ∧ ending = .keep) := by
        rintro ⟨hnil, hkeep⟩
        rcases hback with hback | hback
        · exact hback (List.append_eq_nil_iff.mp hnil).2
        · exact hback hkeep
      rw [List.cons_append, hlook'.walk_of_link hnode hlink hgoes htarget, ← ih, List.append_assoc]
      rfl
  | @enter spent place name rest goal node hlook hnode hplain _ ih =>
      have hlook' : t.LooksUp ending place name (rest ++ back) := hlook.weaken hending fun _ => rfl
      rw [List.cons_append, hlook'.walk_of_plain hnode hplain, ih]

/-- A walk that would have to follow more links than are left gives up. -/
theorem Goes.walk_of_lt {spent : Nat} {names : List String} (h : t.Goes spent place names goal)
    (hlinks : links < spent) : t.walk .spell links place names = .error .tooManyLinks := by
  induction h generalizing links with
  | done => exact absurd hlinks (Nat.not_lt_zero links)
  | skip hdir hname _ ih => rw [walk_skip hdir hname, ih hlinks]
  | up hdir _ ih => rw [walk_up hdir, ih hlinks]
  | follow hlook hnode hlink htarget _ ih =>
      rw [hlook.walk_of_link hnode hlink (by simp) htarget]
      cases links with
      | zero => rfl
      | succ links => exact ih (Nat.lt_of_succ_lt_succ hlinks)
  | enter hlook hnode hplain _ ih => rw [hlook.walk_of_plain hnode hplain, ih hlinks]

/-- A walk that succeeds goes somewhere with the names in front, and on from there. -/
theorem Walks.cut {spot : Spot} (h : t.Walks .spell links place (front ++ back) spot)
    (hback : back = [] → ∃ there, spot = .taken there) :
    ∃ spent left goal, links = left + spent ∧ t.Goes spent place front goal ∧
      t.Walks .spell left goal back spot := by
  generalize hnames : front ++ back = path at h
  -- A link in front of the rest puts the names of its target there.
  induction h generalizing front with
  | @done links place =>
      obtain ⟨rfl, rfl⟩ := List.append_eq_nil_iff.mp hnames
      exact ⟨0, links, place, rfl, .done, .done⟩
  | @skip links place name rest spot hdir hname h ih =>
      cases front with
      | nil =>
          obtain rfl : back = name :: rest := hnames
          exact ⟨0, links, place, rfl, .done, .skip hdir hname h⟩
      | cons first front =>
          obtain ⟨rfl, rfl⟩ := List.cons.inj hnames
          obtain ⟨spent, left, goal, hlinks, hgoes, hends⟩ := ih hback rfl
          exact ⟨spent, left, goal, hlinks, .skip hdir hname hgoes, hends⟩
  | @up links place rest spot hdir h ih =>
      cases front with
      | nil =>
          obtain rfl : back = ".." :: rest := hnames
          exact ⟨0, links, place, rfl, .done, .up hdir h⟩
      | cons first front =>
          obtain ⟨rfl, rfl⟩ := List.cons.inj hnames
          obtain ⟨spent, left, goal, hlinks, hgoes, hends⟩ := ih hback rfl
          exact ⟨spent, left, goal, hlinks, .up hdir hgoes, hends⟩
  | @missing links place name hlook hnode =>
      cases front with
      | nil =>
          obtain rfl : back = [name] := hnames
          exact ⟨0, links, place, rfl, .done, .missing hlook hnode⟩
      | cons first front =>
          obtain ⟨-, hrest⟩ := List.cons.inj hnames
          obtain ⟨there, hspot⟩ := hback (List.append_eq_nil_iff.mp hrest).2
          cases hspot
  | kept _ _ _ hkeep => cases hkeep
  | @follow links place name rest spot node target hlook hnode hlink hgoes htarget h ih =>
      cases front with
      | nil =>
          obtain rfl : back = name :: rest := hnames
          exact ⟨0, links + 1, place, rfl, .done, .follow hlook hnode hlink hgoes htarget h⟩
      | cons first front =>
          obtain ⟨rfl, rfl⟩ := List.cons.inj hnames
          obtain ⟨spent, left, goal, rfl, hgoes', hends⟩ := ih hback (List.append_assoc ..)
          have hlook' : t.LooksUp .spell place first front :=
            hlook.weaken Ending.spell_ne_create fun _ => rfl
          exact ⟨spent + 1, left, goal, rfl, .follow hlook' hnode hlink htarget hgoes', hends⟩
  | @enter links place name rest spot node hlook hnode hplain h ih =>
      cases front with
      | nil =>
          obtain rfl : back = name :: rest := hnames
          exact ⟨0, links, place, rfl, .done, .enter hlook hnode hplain h⟩
      | cons first front =>
          obtain ⟨rfl, rfl⟩ := List.cons.inj hnames
          obtain ⟨spent, left, goal, hlinks, hgoes, hends⟩ := ih hback rfl
          have hlook' : t.LooksUp .spell place first front :=
            hlook.weaken Ending.spell_ne_create fun _ => rfl
          exact ⟨spent, left, goal, hlinks, .enter hlook' hnode hplain hgoes, hends⟩

end FileTree

end FtpControl
