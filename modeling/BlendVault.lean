import BlendVault.Contract.Conversions
import BlendVault.System.Accuracy
import BlendVault.System.Allowances
import BlendVault.System.Clamp
import BlendVault.System.Consent
import BlendVault.System.Deposits
import BlendVault.System.Earnings
import BlendVault.System.Errors
import BlendVault.System.Exit
import BlendVault.System.Interference
import BlendVault.System.Overflow
import BlendVault.System.Permission
import BlendVault.System.Profit
import BlendVault.System.Requests
import BlendVault.System.ShareToken
import BlendVault.System.Signatures
import BlendVault.System.Slippage
import BlendVault.System.Splitting
import BlendVault.System.Staying
import BlendVault.System.Takeover
