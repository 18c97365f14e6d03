import Firmware.Command.Keys
import Firmware.Command.Workspace
import Firmware.Proofs.Key.Load
import Firmware.Proofs.Run

/-!
# Commands in a workspace

How the steps of a command run in a directory in memory.  A step that only looks at the workspace
succeeds with what it found and leaves the workspace as it was, so each lemma here is an equivalence
that ends in `w = w'`; a step that prints changes what has been printed and nothing else.

A key that is read from a file is described by a relation between the workspace, the path and the
key.
-/

namespace Firmware.Command

variable {α ε : Type} {w w' : Workspace}

/-- A session in a directory in memory. -/
abbrev InMemory := Session (StateM Workspace)

/-! ## Steps -/

theorem yields_liftM {x : StateM Workspace α} {a : α} :
    Yields (liftM x : InMemory α) w a w' ↔ x w = (a, w') := by
  have hrun : (liftM x : InMemory α) w = (.ok (x w).1, (x w).2) := rfl
  rw [Yields, hrun, Prod.mk.injEq, Except.ok.injEq, Prod.ext_iff]

theorem yields_attempt [HasTexts ε] {what : String} {r : Except ε α} {a : α} :
    Yields (attempt what r : InMemory α) w a w' ↔ r = .ok a ∧ w = w' := by
  cases r with
  | ok b => simp only [attempt, yields_pure, Except.ok.injEq]
  | error e =>
      constructor
      · intro h
        exact absurd h not_yields_throw
      · rintro ⟨h, -⟩
        cases h

theorem yields_demand {what : String} {o : Option α} {a : α} :
    Yields (demand what o : InMemory α) w a w' ↔ o = some a ∧ w = w' := by
  cases o with
  | some b => simp only [demand, yields_pure, Option.some.injEq]
  | none =>
      constructor
      · intro h
        exact absurd h not_yields_throw
      · rintro ⟨h, -⟩
        cases h

theorem yields_load {path : String} {found : Option Bytes} :
    Yields (liftM (Host.load path : StateM Workspace (Option Bytes)) : InMemory _) w found w' ↔
      w.load? path = found ∧ w = w' := by
  rw [yields_liftM]
  exact Prod.mk.injEq _ _ _ _ ▸ Iff.rfl

theorem yields_lookup {name : String} {found : Option String} :
    Yields (liftM (Host.lookup name : StateM Workspace (Option String)) : InMemory _) w found w' ↔
      w.environment.lookup name = found ∧ w = w' := by
  rw [yields_liftM]
  exact Prod.mk.injEq _ _ _ _ ▸ Iff.rfl

theorem yields_ask {prompt : String} {reply : Key.Reply} :
    Yields (liftM (Host.ask prompt : StateM Workspace Key.Reply) : InMemory _) w reply w' ↔
      w.terminal prompt = reply ∧ w = w' := by
  rw [yields_liftM]
  exact Prod.mk.injEq _ _ _ _ ▸ Iff.rfl

theorem yields_content {what path : String} {data : Bytes} :
    Yields (content what path : InMemory Bytes) w data w' ↔
      w.load? path = some data ∧ w = w' := by
  simp only [content, yields_bind, yields_load, yields_demand]
  constructor
  · rintro ⟨_, _, ⟨hload, rfl⟩, rfl, rfl⟩
    exact ⟨hload, rfl⟩
  · rintro ⟨hload, rfl⟩
    exact ⟨_, w, ⟨hload, rfl⟩, rfl, rfl⟩

/-! ## Names -/

/-- A path that is the name of a file in the workspace itself. -/
structure IsFileName (name : String) : Prop where
  root : name.startsWith "/" = false := by simp
  names : Workspace.namesOf name = [name] := by rfl
  parent : name ≠ ".." := by decide
  isFile : Workspace.asksDirectory name = false := by rfl
  size : name.utf8ByteSize ≤ 255 := by decide
  zero : name.contains (Char.ofNat 0) = false := by simp

namespace IsFileName

variable {name : String} {data : Bytes}

theorem locate?_eq (h : IsFileName name) : w.locate? name = some [name] := by
  have hname : Workspace.isName name = true := by
    rw [Workspace.isName, h.zero]
    simpa using h.size
  have hroot : w.isDirectory [] = true := rfl
  simp only [Workspace.locate?, h.root, h.names, Workspace.follow?, hroot, h.parent, hname,
    Bool.not_true, Bool.false_eq_true, if_false, if_true, List.nil_append]

theorem load?_eq (h : IsFileName name) : w.load? name = w.file? [name] := by
  simp only [Workspace.load?, h.locate?_eq, h.isFile, Option.bind_eq_bind, Option.bind_some,
    Bool.false_eq_true, if_false]

theorem store?_eq (h : IsFileName name) (hfree : w.isDirectory [name] = false) :
    w.store? name data = some (w.put [name] data) := by
  have hroot : w.isDirectory [] = true := rfl
  simp only [Workspace.store?, h.locate?_eq, h.isFile, hfree, List.dropLast_singleton, hroot,
    Option.bind_eq_bind, Option.bind_some, Bool.not_true, Bool.or_self, Bool.false_eq_true,
    if_false]

end IsFileName

/-! ## Keys in files -/

theorem yields_keyFile {failed path : String} {data : Bytes} :
    Yields (keyFile failed path : InMemory Bytes) w data w' ↔
      w.load? path = some data ∧ w = w' := by
  simp only [keyFile, yields_bind, yields_load, yields_attempt, elim_eq_ok_iff]
  constructor
  · rintro ⟨_, _, ⟨rfl, rfl⟩, hload, rfl⟩
    exact ⟨hload, rfl⟩
  · rintro ⟨hload, rfl⟩
    exact ⟨_, w, ⟨hload, rfl⟩, rfl, rfl⟩

/-- A file holds a public key. -/
def HoldsPublicKey (w : Workspace) (path : String) (key : Key.PublicKey) : Prop :=
  ∃ data, w.load? path = some data ∧ Key.PublicKey.parse data = .ok key

theorem yields_publicKey {path : String} {key : Key.PublicKey} :
    Yields (publicKey path : InMemory _) w key w' ↔ HoldsPublicKey w path key ∧ w = w' := by
  simp only [publicKey, yields_bind, yields_keyFile, yields_attempt]
  constructor
  · rintro ⟨data, _, ⟨hload, rfl⟩, hparse, rfl⟩
    exact ⟨⟨data, hload, hparse⟩, rfl⟩
  · rintro ⟨⟨data, hload, hparse⟩, rfl⟩
    exact ⟨data, w, ⟨hload, rfl⟩, hparse, rfl⟩

/-- What a passphrase option stands for when the key in a file is read. -/
def Workspace.passphrase (w : Workspace) (path : String) : PassphraseOption → Key.Passphrase
  | .prompt => .terminal (w.terminal (passphrasePrompt path)) none
  | .variable name => .variable name (w.environment.lookup name)
  | .file source => .file source (w.load? source)

theorem yields_passphraseSource {path : String} {option : PassphraseOption}
    {passphrase : Key.Passphrase} :
    Yields (passphraseSource path option : InMemory _) w passphrase w' ↔
      w.passphrase path option = passphrase ∧ w = w' := by
  cases option with
  | prompt =>
      simp only [passphraseSource, yields_bind, yields_ask, yields_pure, Workspace.passphrase]
      constructor
      · rintro ⟨_, _, ⟨rfl, rfl⟩, rfl, rfl⟩
        exact ⟨rfl, rfl⟩
      · rintro ⟨rfl, rfl⟩
        exact ⟨_, w, ⟨rfl, rfl⟩, rfl, rfl⟩
  | «variable» name =>
      simp only [passphraseSource, yields_bind, yields_lookup, yields_pure, Workspace.passphrase]
      constructor
      · rintro ⟨_, _, ⟨rfl, rfl⟩, rfl, rfl⟩
        exact ⟨rfl, rfl⟩
      · rintro ⟨rfl, rfl⟩
        exact ⟨_, w, ⟨rfl, rfl⟩, rfl, rfl⟩
  | file source =>
      simp only [passphraseSource, yields_bind, yields_load, yields_pure, Workspace.passphrase]
      constructor
      · rintro ⟨_, _, ⟨rfl, rfl⟩, rfl, rfl⟩
        exact ⟨rfl, rfl⟩
      · rintro ⟨rfl, rfl⟩
        exact ⟨_, w, ⟨rfl, rfl⟩, rfl, rfl⟩

/-- Whether the passphrase is looked for or not, the key is read as if it had been. -/
theorem yields_parseSigningKey {failed path : String} {option : PassphraseOption} {data : Bytes}
    {key : Key.SigningKey} :
    Yields (parseSigningKey failed path option data : InMemory _) w key w' ↔
      Key.SigningKey.parse data (w.passphrase path option) = .ok key ∧ w = w' := by
  unfold parseSigningKey
  split
  · simp only [yields_bind, yields_passphraseSource, yields_attempt]
    constructor
    · rintro ⟨_, _, ⟨rfl, rfl⟩, hparse, rfl⟩
      exact ⟨hparse, rfl⟩
    · rintro ⟨hparse, rfl⟩
      exact ⟨_, w, ⟨rfl, rfl⟩, hparse, rfl⟩
  · rename_i hsilent
    rcases Key.needed_parse data with hneeded | hsame
    · exact absurd hneeded hsilent
    · rw [yields_attempt, hsame (w.passphrase path option)]

/-- A file holds a private key that can be read with what a passphrase option stands for. -/
def HoldsSigningKey (w : Workspace) (option : PassphraseOption) (path : String)
    (key : Key.SigningKey) : Prop :=
  ∃ data, w.load? path = some data ∧
    Key.SigningKey.parse data (w.passphrase path option) = .ok key

theorem yields_signingKey {option : PassphraseOption} {path : String} {key : Key.SigningKey} :
    Yields (signingKey option path : InMemory _) w key w' ↔
      HoldsSigningKey w option path key ∧ w = w' := by
  simp only [signingKey, yields_bind, yields_keyFile, yields_parseSigningKey]
  constructor
  · rintro ⟨data, _, ⟨hload, rfl⟩, hparse, rfl⟩
    exact ⟨⟨data, hload, hparse⟩, rfl⟩
  · rintro ⟨⟨data, hload, hparse⟩, rfl⟩
    exact ⟨data, w, ⟨hload, rfl⟩, hparse, rfl⟩

/-- What the options about a decryption key stand for. -/
inductive UnwrapOption.Reads (w : Workspace) (option : PassphraseOption) :
    UnwrapOption → Option Secret.UnwrapKey → Prop where
  | absent : Reads w option .none Option.none
  | rsa {path : String} {key : Crypto.Rsa.PrivateKey} :
      HoldsSigningKey w option path (.rsa key) → Reads w option (.rsa path) (some (.rsa key))
  | kek {path : String} {data : Bytes} {key : Key128} :
      w.load? path = some data → Secret.parseKek data = .ok key →
      Reads w option (.kek path) (some (.kek key))

/-- There is no key only where none is asked for. -/
theorem UnwrapOption.Reads.eq_none_iff {unwrap : UnwrapOption} {option : PassphraseOption}
    {key : Option Secret.UnwrapKey} (h : unwrap.Reads w option key) :
    key = Option.none ↔ unwrap = .none := by
  cases h with
  | absent => exact ⟨fun _ => rfl, fun _ => rfl⟩
  | rsa _ => exact ⟨nofun, nofun⟩
  | kek _ _ => exact ⟨nofun, nofun⟩

theorem yields_unwrapKey {unwrap : UnwrapOption} {option : PassphraseOption}
    {key : Option Secret.UnwrapKey} :
    Yields (unwrapKey unwrap option : InMemory _) w key w' ↔
      unwrap.Reads w option key ∧ w = w' := by
  cases unwrap with
  | none =>
      rw [unwrapKey, yields_pure]
      constructor
      · rintro ⟨rfl, rfl⟩
        exact ⟨.absent, rfl⟩
      · rintro ⟨h, rfl⟩
        cases h
        exact ⟨rfl, rfl⟩
  | rsa path =>
      simp only [unwrapKey, yields_bind, yields_signingKey]
      constructor
      · rintro ⟨signing, _, ⟨hholds, rfl⟩, h⟩
        cases signing with
        | rsa key =>
            obtain ⟨rfl, rfl⟩ := yields_pure.mp h
            exact ⟨.rsa hholds, rfl⟩
        | ec => exact absurd h not_yields_throw
        | ed25519 => exact absurd h not_yields_throw
      · rintro ⟨h, rfl⟩
        cases h with
        | rsa hholds => exact ⟨_, w, ⟨hholds, rfl⟩, yields_pure.mpr ⟨rfl, rfl⟩⟩
  | kek path =>
      simp only [unwrapKey, yields_bind, yields_content, yields_attempt, yields_pure]
      constructor
      · rintro ⟨data, _, ⟨hload, rfl⟩, key, _, ⟨hparse, rfl⟩, rfl, rfl⟩
        exact ⟨.kek hload hparse, rfl⟩
      · rintro ⟨h, rfl⟩
        cases h with
        | kek hload hparse => exact ⟨_, w, ⟨hload, rfl⟩, _, w, ⟨hparse, rfl⟩, rfl, rfl⟩

end Firmware.Command
