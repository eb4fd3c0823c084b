/-!
# Types of signal data

The property names under which the legacy key store keeps signal data.
-/

namespace Baileyrs

/-- Types of signal data. -/
inductive SignalDataType where
  | preKey
  | session
  | senderKey
  | senderKeyMemory
  | appStateSyncKey
  | appStateSyncVersion
  | lidMapping
  | deviceList
  | tctoken
  | identityKey
  deriving DecidableEq

/-- Property name of a type. -/
def SignalDataType.name : SignalDataType → String
  | .preKey => "pre-key"
  | .session => "session"
  | .senderKey => "sender-key"
  | .senderKeyMemory => "sender-key-memory"
  | .appStateSyncKey => "app-state-sync-key"
  | .appStateSyncVersion => "app-state-sync-version"
  | .lidMapping => "lid-mapping"
  | .deviceList => "device-list"
  | .tctoken => "tctoken"
  | .identityKey => "identity-key"

end Baileyrs
