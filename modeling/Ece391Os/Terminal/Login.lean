import Ece391Os.Terminal.CopyOut

/-!
# Login

`init_user_group` registers two users, and `prompt_login` asks for a name and a password.

* `Typed.spells`: the string behind `terminal_read` is the line that has been typed.
* `loginSucceeds_iff`: what `prompt_login` tests. The name is compared on four bytes, and the start
  and the length of the password may be those of different users.
* `acceptsExactly_iff`: so the registered pairs are accepted, and nothing else, but for an
  `Impostor`. `not_acceptsExactly_root` logs in as `root` with the password of `user`.
-/

namespace Ece391

/-- `user_t` -/
structure User where
  username : Buffer
  password : Buffer
  authrization : Byte

/-- `init_user_group`. The memory behind the literals is `rest`. -/
def initUserGroup (rest : Buffer) : Fin 2 → User
  | 0 =>
    { username := cString "user" rest
      password := cString "ece391" rest
      authrization := 0#8 }
  | 1 =>
    { username := cString "root" rest
      password := cString "ece391root" rest
      authrization := 1#8 }

/-- The variables of `user.c`. -/
structure LoginState where
  nameBuf : Buffer
  passwordBuf : Buffer
  logingPassword : Byte

/-- `prompt_login`: the texts it prints and the variables it leaves, when these two lines are typed.
There is no result if a string does not end. -/
def promptLogin (users : Fin 2 → User) (nameLine passwordLine : LineBuffer) (s : LoginState) :
    Option (List String × LoginState) := do
  let s := { s with nameBuf := s.nameBuf.replay (copyOut nameLine 128).2.1 }
  if strncmp (users 0).username s.nameBuf 4 = 0 ∨ strncmp (users 1).username s.nameBuf 4 = 0 then
    -- `loging_password` is set while the password is typed
    let s := { s with logingPassword := 1#8 }
    let s := { s with passwordBuf := s.passwordBuf.replay (copyOut passwordLine 128).2.1 }
    let len0 ← strlen (users 0).password
    let len1 ← strlen (users 1).password
    let len ← strlen s.passwordBuf
    let s := { s with logingPassword := 0#8 }
    if (strncmp (users 0).password s.passwordBuf len0 = 0 ∨
        strncmp (users 1).password s.passwordBuf len1 = 0) ∧ (len0 = len ∨ len1 = len) then
      return (["user_login\nUSERNAME: ", "PASSWORD: ", "login successful!\n"], s)
    else
      return (["user_login\nUSERNAME: ", "PASSWORD: ", "password incorrect!\n"], s)
  else
    return (["user_login\nUSERNAME: ", "invalid username\n"], s)

/-- The login succeeds. -/
def LoginSucceeds (users : Fin 2 → User) (nameLine passwordLine : LineBuffer) (s : LoginState) :
    Prop :=
  ∃ out, promptLogin users nameLine passwordLine s = some out ∧ "login successful!\n" ∈ out.1

/-- A line of at most 127 characters has been typed. -/
structure Typed (l : LineBuffer) (text : List Byte) : Prop where
  cnt : l.cnt = text.length
  buf : ∀ j, (hj : j < text.length) → l.buf j = text[j]
  nonul : 0#8 ∉ text
  short : text.length ≤ 127

section

variable {text name password : List Byte} {l nameLine passwordLine : LineBuffer}

/-- What `terminal_read` stores. -/
theorem Typed.spells (h : Typed l text) (buf : Buffer) :
    Spells (buf.replay (copyOut l 128).2.1) text := by
  obtain ⟨n, hn, -, hstores⟩ := copyOut_eq l 128
  -- a line of less than 128 characters is copied whole
  have hlt : l.cnt < 128 := by
    have hcnt := h.cnt
    have hshort := h.short
    omega
  have hn' : n.toNat = text.length := by
    rw [hn, if_pos (Or.inr hlt), h.cnt, Int.toNat_natCast]
  have hshort := h.short
  rw [hstores, replay_line, hn']
  exact spells_overwrite h.nonul (by omega) h.buf buf

/-! ## What is accepted -/

theorem spells_users (rest : Buffer) :
    Spells (initUserGroup rest 0).username (ascii "user") ∧
      Spells (initUserGroup rest 0).password (ascii "ece391") ∧
        Spells (initUserGroup rest 1).username (ascii "root") ∧
          Spells (initUserGroup rest 1).password (ascii "ece391root") :=
  ⟨spells_cString "user" (by decide) (by decide) rest,
    spells_cString "ece391" (by decide) (by decide) rest,
    spells_cString "root" (by decide) (by decide) rest,
    spells_cString "ece391root" (by decide) (by decide) rest⟩

/-- The tests of `prompt_login`. -/
theorem loginSucceeds_iff (hname : Typed nameLine name) (hpassword : Typed passwordLine password)
    (rest : Buffer) (s : LoginState) :
    LoginSucceeds (initUserGroup rest) nameLine passwordLine s ↔
      (ascii "user" <+: name ∨ ascii "root" <+: name) ∧
        (ascii "ece391" <+: password ∨ ascii "ece391root" <+: password) ∧
          (6 = password.length ∨ 10 = password.length) := by
  obtain ⟨huser, hece, hroot, heceroot⟩ := spells_users rest
  have hname' := hname.spells s.nameBuf
  have hpassword' := hpassword.spells s.passwordBuf
  rw [← huser.strncmp_iff hname' (by decide : 4 = _),
    ← hroot.strncmp_iff hname' (by decide : 4 = _),
    ← hece.strncmp_iff hpassword' (by decide : 6 = _),
    ← heceroot.strncmp_iff hpassword' (by decide : 10 = _)]
  have hlen0 : strlen (initUserGroup rest 0).password = some 6 := hece.1
  have hlen1 : strlen (initUserGroup rest 1).password = some 10 := heceroot.1
  simp only [LoginSucceeds, promptLogin, hlen0, hlen1, hpassword'.1, Option.pure_def,
    Option.bind_eq_bind, Option.bind_some]
  split_ifs with h1 h2
  · exact iff_of_true ⟨_, rfl, by simp⟩ ⟨h1, h2⟩
  · -- the texts of a refusal are others
    refine iff_of_false ?_ fun h => h2 h.2
    rintro ⟨out, hout, hmem⟩
    simp [← Option.some.inj hout] at hmem
  · refine iff_of_false ?_ fun h => h1 h.1
    rintro ⟨out, hout, hmem⟩
    simp [← Option.some.inj hout] at hmem

/-- One of the users has this name and this password. -/
def Registered (users : Fin 2 → User) (name password : List Byte) : Prop :=
  ∃ i, Spells (users i).username name ∧ Spells (users i).password password

theorem registered_iff (rest : Buffer) :
    Registered (initUserGroup rest) name password ↔
      (name = ascii "user" ∧ password = ascii "ece391") ∨
        (name = ascii "root" ∧ password = ascii "ece391root") := by
  obtain ⟨huser, hece, hroot, heceroot⟩ := spells_users rest
  rw [Registered, Fin.exists_fin_two, huser.iff_eq, hece.iff_eq, hroot.iff_eq, heceroot.iff_eq]

/-- A pair that is not registered, of a name that only begins like a user's, and a password that is
that of `user` or begins like it and is as long as that of `root`. -/
structure Impostor (name password : List Byte) : Prop where
  begins : ascii "user" <+: name ∨ ascii "root" <+: name
  passes : password = ascii "ece391" ∨ password.length = 10 ∧ ascii "ece391" <+: password
  not_user : ¬ (name = ascii "user" ∧ password = ascii "ece391")
  not_root : ¬ (name = ascii "root" ∧ password = ascii "ece391root")

/-- The two tests of the password together. -/
theorem passwordTests_iff :
    (ascii "ece391" <+: password ∨ ascii "ece391root" <+: password) ∧
        (6 = password.length ∨ 10 = password.length) ↔
      password = ascii "ece391" ∨ password.length = 10 ∧ ascii "ece391" <+: password := by
  -- the password of `user` begins that of `root`
  have hlonger : ascii "ece391" <+: ascii "ece391root" := by decide
  have hstart : ascii "ece391" <+: password ∨ ascii "ece391root" <+: password ↔
      ascii "ece391" <+: password :=
    ⟨fun h => h.elim id hlonger.trans, Or.inl⟩
  rw [hstart]
  constructor
  · rintro ⟨hbegins, hsix | hten⟩
    · exact Or.inl (hbegins.eq_of_length hsix).symm
    · exact Or.inr ⟨hten.symm, hbegins⟩
  · rintro (rfl | ⟨hten, hbegins⟩)
    · exact ⟨List.prefix_rfl, Or.inl (by decide)⟩
    · exact ⟨hbegins, Or.inr hten.symm⟩

/-- Exactly the registered pairs are accepted, unless an impostor types. -/
theorem acceptsExactly_iff (hname : Typed nameLine name) (hpassword : Typed passwordLine password)
    (rest : Buffer) (s : LoginState) :
    (LoginSucceeds (initUserGroup rest) nameLine passwordLine s ↔
      Registered (initUserGroup rest) name password) ↔ ¬ Impostor name password := by
  rw [loginSucceeds_iff hname hpassword, passwordTests_iff, registered_iff]
  constructor
  · rintro hiff ⟨hn, hp, hnot_user, hnot_root⟩
    exact (hiff.mp ⟨hn, hp⟩).elim hnot_user hnot_root
  · intro himpostor
    constructor
    · -- who is accepted and not registered is an impostor
      rintro ⟨hn, hp⟩
      by_contra hnot
      obtain ⟨hnot_user, hnot_root⟩ := not_or.mp hnot
      exact himpostor ⟨hn, hp, hnot_user, hnot_root⟩
    · rintro (⟨rfl, rfl⟩ | ⟨rfl, rfl⟩)
      · exact ⟨Or.inl List.prefix_rfl, Or.inl rfl⟩
      · exact ⟨Or.inr List.prefix_rfl, Or.inr (by decide)⟩

end

/-- The line buffer after a text has been typed. -/
def lineOf (text : List Byte) : LineBuffer where
  buf i := text.getD i.toNat 0#8
  cnt := text.length
  readOn := false

theorem typed_lineOf (text : List Byte) (hnul : 0#8 ∉ text) (hshort : text.length ≤ 127) :
    Typed (lineOf text) text := by
  refine ⟨rfl, fun j hj => ?_, hnul, hshort⟩
  simp [lineOf, hj]

/-- `user` logs in with its password. -/
theorem acceptsExactly_iff_user :
    LoginSucceeds (initUserGroup fun _ => 0#8) (lineOf (ascii "user")) (lineOf (ascii "ece391"))
      ⟨fun _ => 0#8, fun _ => 0#8, 0#8⟩ := by
  have hexact := (acceptsExactly_iff (typed_lineOf (ascii "user") (by decide) (by decide))
    (typed_lineOf (ascii "ece391") (by decide) (by decide)) (fun _ => 0#8)
    ⟨fun _ => 0#8, fun _ => 0#8, 0#8⟩).mpr fun h => h.not_user ⟨rfl, rfl⟩
  exact hexact.mpr ((registered_iff _).mpr (Or.inl ⟨rfl, rfl⟩))

/-- `root` logs in with the password of `user`. -/
theorem not_acceptsExactly_root :
    ¬ (LoginSucceeds (initUserGroup fun _ => 0#8) (lineOf (ascii "root")) (lineOf (ascii "ece391"))
      ⟨fun _ => 0#8, fun _ => 0#8, 0#8⟩ ↔
        Registered (initUserGroup fun _ => 0#8) (ascii "root") (ascii "ece391")) := by
  rw [loginSucceeds_iff (typed_lineOf (ascii "root") (by decide) (by decide))
    (typed_lineOf (ascii "ece391") (by decide) (by decide)), registered_iff]
  decide

end Ece391
