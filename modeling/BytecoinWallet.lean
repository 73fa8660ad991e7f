import BytecoinWallet.Bytes
import BytecoinWallet.Types
import BytecoinWallet.Container.Format
import BytecoinWallet.Container.Decode
import BytecoinWallet.Container.RoundTrip
import BytecoinWallet.Container.Storage
import BytecoinWallet.Container.Save
import BytecoinWallet.Container.Generate
import BytecoinWallet.Container.Invariant
import BytecoinWallet.Container.Crash
import BytecoinWallet.Container.History
import BytecoinWallet.Container.NewAddresses
import BytecoinWallet.Container.Export
import BytecoinWallet.HD.Crypt
import BytecoinWallet.HD.Wallet
import BytecoinWallet.HD.Window
import BytecoinWallet.HD.Store
import BytecoinWallet.HD.Password
import BytecoinWallet.HD.Count
import BytecoinWallet.HD.Mnemonic
import BytecoinWallet.HD.Export
import BytecoinWallet.FirstOutput
import BytecoinWallet.Addresses
import BytecoinWallet.HD.Scan
import BytecoinWallet.Container.Backup
import BytecoinWallet.Container.Detect
import BytecoinWallet.CacheName
